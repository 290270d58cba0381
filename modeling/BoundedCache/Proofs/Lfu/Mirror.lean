import BoundedCache.Proofs.Lfu.Operations
import BoundedCache.Proofs.Reference.Frequency

/-! # A tally that mirrors a least frequently used engine -/
namespace BoundedCache.Lfu
open Ranking
variable {K V : Type} [DecidableEq K] {e e' : Lfu K V} {m : Frequency K V} {i f : Nat}
  {slots : Nat → List Nat} {seqOf : Nat → Nat} {a : Entry K V} {k : K} {u : Use K V}

/-- The tally holds the entries of the engine with their frequencies, and numbers the slots of each
frequency in their order. -/
structure Mirrors (e : Lfu K V) (m : Frequency K V) (slots : Nat → List Nat) (seqOf : Nat → Nat) :
    Prop where
  inv : Inv e slots
  capacity_eq : m.capacity = e.capacity
  uses_iff : ∀ k u, m.uses.get? k = some u ↔
    ∃ i, e.table.get? k = some i ∧ e.ranking.entryAt? i = some u.entry ∧ i ∈ slots u.freq ∧
      seqOf i = u.seq
  ordered : ∀ f, (slots f).Pairwise fun i j => seqOf i < seqOf j
  recent : ∀ f, ∀ i ∈ slots f, seqOf i < m.clock

namespace Mirrors

theorem new (capacity : Nat) :
    Mirrors (new capacity : Lfu K V) { capacity } (fun _ => []) fun _ => 0 where
  inv := Inv.new capacity
  capacity_eq := rfl
  uses_iff k u := by simp [Lfu.new]
  ordered _ := List.Pairwise.nil
  recent _ _ hi := absurd hi List.not_mem_nil

theorem uses_some (h : Mirrors e m slots seqOf) (hk : e.table.get? k = some i)
    (hi : e.ranking.entryAt? i = some a) (hf : i ∈ slots f) :
    m.uses.get? k = some { entry := a, freq := f, seq := seqOf i } :=
  (h.uses_iff k _).2 ⟨i, hk, hi, hf, rfl⟩

theorem uses_none (h : Mirrors e m slots seqOf) (hk : e.table.get? k = none) :
    m.uses.get? k = none := by
  cases hu : m.uses.get? k with
  | none => rfl
  | some u =>
    obtain ⟨i, hi, -⟩ := (h.uses_iff k u).1 hu
    cases hk.symm.trans hi

theorem contains_eq (h : Mirrors e m slots seqOf) (k : K) :
    (m.uses.get? k).isSome = (e.table.get? k).isSome := by
  cases hk : e.table.get? k with
  | none => rw [h.uses_none hk]; rfl
  | some i =>
    obtain ⟨a, ha, -⟩ := h.inv.tracks.exists_entry hk
    obtain ⟨f, hf⟩ := h.inv.exists_freq ha
    rw [h.uses_some hk ha hf]
    rfl

theorem size_eq (h : Mirrors e m slots seqOf) : m.uses.size = e.size := by
  rw [Dict.size_congr h.contains_eq, h.inv.table_size_eq]

/-! ## Each operation -/

theorem without (h : Mirrors e m slots seqOf) (hk : e.table.get? k = some i)
    (hi : e.ranking.entryAt? i = some a) :
    Mirrors (e.without i a) (m.drop k) (dropped slots i) seqOf where
  inv := h.inv.without hi
  capacity_eq := h.capacity_eq
  uses_iff j u := by
    obtain rfl : a.key = k := (h.inv.tracks.key_eq_iff hk hi).2 rfl
    simp only [Frequency.drop, Lfu.without, Dict.get?_erase, entryAt?_remove, mem_dropped]
    split
    · simp
    · rename_i hj
      rw [h.uses_iff]
      refine exists_congr fun s => and_congr_right fun hs => ?_
      have hsi : i ≠ s := by
        rintro rfl
        obtain ⟨b, hb, hbj⟩ := h.inv.tracks.exists_entry hs
        cases hi.symm.trans hb
        exact hj hbj
      rw [if_neg hsi]
      simp [Ne.symm hsi]
  ordered f := (h.ordered f).sublist List.filter_sublist
  recent f j hj := h.recent f j (List.mem_of_mem_filter hj)

/-- An entry that reaches a frequency, be it used or new, gets the next number. -/
theorem enter (h : Mirrors e m slots seqOf) (hinv : Inv e' (appended (dropped slots i) f i))
    (hcapacity : e'.capacity = e.capacity)
    (htable : ∀ k, e'.table.get? k = if a.key = k then some i else e.table.get? k)
    (hentry : ∀ j, e'.ranking.entryAt? j = if i = j then some a else e.ranking.entryAt? j) :
    Mirrors e' (m.enter a f) (appended (dropped slots i) f i)
      fun j => if j = i then m.clock else seqOf j where
  inv := hinv
  capacity_eq := h.capacity_eq.trans hcapacity.symm
  uses_iff k u := by
    rw [Frequency.enter, Dict.get?_insert, htable]
    split
    · have hmem : i ∈ appended (dropped slots i) f i u.freq ↔ u.freq = f := by
        rw [mem_appended]
        simp [not_mem_dropped]
      constructor
      · rintro ⟨⟩
        exact ⟨i, rfl, by rw [hentry, if_pos rfl], hmem.2 rfl, if_pos rfl⟩
      · rintro ⟨j, ⟨⟩, hj, hfreq, hseq⟩
        rw [hentry, if_pos rfl, Option.some.injEq] at hj
        rw [if_pos rfl] at hseq
        rw [hmem] at hfreq
        rw [hj, hseq, ← hfreq]
    · rename_i hk
      rw [h.uses_iff]
      refine exists_congr fun j => and_congr_right fun hj => ?_
      have hji : j ≠ i := by
        rintro rfl
        have hget := htable k
        rw [if_neg hk, hj] at hget
        obtain ⟨b, hb, hbk⟩ := hinv.tracks.exists_entry hget
        rw [hentry, if_pos rfl, Option.some.injEq] at hb
        exact hk (hb ▸ hbk)
      rw [hentry, if_neg (Ne.symm hji), if_neg hji, mem_appended, mem_dropped]
      simp [hji]
  ordered g := by
    have hold : ((dropped slots i) g).Pairwise fun j s =>
        (if j = i then m.clock else seqOf j) < if s = i then m.clock else seqOf s := by
      refine ((h.ordered g).sublist List.filter_sublist).imp_of_mem fun {j s} hj hs hlt => ?_
      rw [if_neg (mem_dropped.1 hj).2, if_neg (mem_dropped.1 hs).2]
      exact hlt
    rw [appended]
    split
    · rename_i hg
      subst hg
      refine List.pairwise_append.2 ⟨hold, List.pairwise_singleton .., fun j hj s hs => ?_⟩
      obtain ⟨hjg, hji⟩ := mem_dropped.1 hj
      rw [List.mem_singleton.1 hs, if_pos rfl, if_neg hji]
      exact h.recent g j hjg
    · exact hold
  recent g j hj := by
    rw [mem_appended, mem_dropped] at hj
    rw [Frequency.enter]
    split
    · exact Nat.lt_succ_self _
    · rename_i hji
      rcases hj with ⟨hjg, -⟩ | ⟨-, rfl⟩
      · exact Nat.lt_succ_of_lt (h.recent g j hjg)
      · exact absurd rfl hji

theorem get (h : Mirrors e m slots seqOf) (k : K) (now : Instant) :
    (e.get k now).1 = (m.get k now).1 ∧
      ∃ slots' seqOf', Mirrors (e.get k now).2 (m.get k now).2 slots' seqOf' := by
  cases hk : e.table.get? k with
  | none =>
    rw [get_absent hk, Frequency.get, h.uses_none hk]
    exact ⟨rfl, slots, seqOf, h⟩
  | some i =>
    obtain ⟨a, ha, rfl⟩ := h.inv.tracks.exists_entry hk
    obtain ⟨f, hf⟩ := h.inv.exists_freq ha
    rw [Frequency.get, h.uses_some hk ha hf]
    cases hx : a.isExpired now with
    | true =>
      rw [get_expired hk ha hx]
      simp only [hx]
      exact ⟨rfl, _, _, h.without hk ha⟩
    | false =>
      rw [get_live hk ha hx]
      simp only [hx]
      refine ⟨rfl, _, _, h.enter (h.inv.touch hf) rfl (fun j => ?_) fun j => ?_⟩
      · split
        · rename_i hj
          rw [← hj, hk]
        · rfl
      · rw [entryAt?_touch]
        split
        · rename_i hj
          rw [← hj, ha]
        · rfl

theorem remove (h : Mirrors e m slots seqOf) (k : K) :
    (e.remove k).1 = (m.remove k).1 ∧
      ∃ slots', Mirrors (e.remove k).2 (m.remove k).2 slots' seqOf := by
  cases hk : e.table.get? k with
  | none =>
    have hdrop : ∀ j, (m.drop k).uses.get? j = m.uses.get? j := by
      intro j
      rw [Frequency.drop, Dict.get?_erase]
      split
      · rename_i hj
        rw [← hj, h.uses_none hk]
      · rfl
    rw [remove_absent hk, Frequency.remove, h.uses_none hk]
    exact ⟨rfl, slots, h.inv, h.capacity_eq, fun j u => by rw [hdrop, h.uses_iff], h.ordered,
      h.recent⟩
  | some i =>
    obtain ⟨a, ha, -⟩ := h.inv.tracks.exists_entry hk
    obtain ⟨f, hf⟩ := h.inv.exists_freq ha
    rw [remove_tracked hk ha, Frequency.remove, h.uses_some hk ha hf]
    exact ⟨rfl, _, h.without hk ha⟩

/-- What the tally notes of a key lies in the slot that the table leads to. -/
theorem exists_slot (h : Mirrors e m slots seqOf) (hu : m.uses.get? k = some u) :
    ∃ i, e.ranking.entryAt? i = some u.entry ∧ u.entry.key = k ∧ i ∈ slots u.freq ∧
      seqOf i = u.seq := by
  obtain ⟨i, hk, hi, hf, hseq⟩ := (h.uses_iff k u).1 hu
  exact ⟨i, hi, (h.inv.tracks.key_eq_iff hk hi).2 rfl, hf, hseq⟩

/-- The first slot of the lowest frequency holds the first key of the tally. -/
theorem first?_eq (h : Mirrors e m slots seqOf)
    (hhead : (slots e.ranking.minFreq).head? = some i) (hi : e.ranking.entryAt? i = some a) :
    m.first? = some a.key := by
  obtain ⟨rest, hslots⟩ : ∃ rest, slots e.ranking.minFreq = i :: rest :=
    List.head?_eq_some_iff.1 hhead
  have hmem : i ∈ slots e.ranking.minFreq := by simp [hslots]
  have hfirst : ∀ j ∈ slots e.ranking.minFreq, j = i ∨ seqOf i < seqOf j := by
    intro j hj
    have hordered := h.ordered e.ranking.minFreq
    rw [hslots] at hj hordered
    rcases List.mem_cons.1 hj with rfl | hj
    · exact .inl rfl
    · exact .inr ((List.pairwise_cons.1 hordered).1 j hj)
  let least : Use K V := { entry := a, freq := e.ranking.minFreq, seq := seqOf i }
  have hleast : m.uses.get? a.key = some least := h.uses_some (h.inv.tracks.get?_key hi) hi hmem
  -- all others come strictly later, so the search cannot stop at another key
  have hall : ∀ k u, m.uses.get? k = some u →
      least.freq < u.freq ∨ least.freq = u.freq ∧ (k = a.key ∨ least.seq < u.seq) := by
    intro k u hu
    obtain ⟨j, hj, rfl, hf, hseq⟩ := h.exists_slot hu
    rcases Nat.lt_or_eq_of_le (h.inv.ranked.minFreq_le (List.ne_nil_of_mem hf)) with hlt | heq
    · exact .inl hlt
    · refine .inr ⟨heq, ?_⟩
      rcases hfirst j (heq ▸ hf) with rfl | hlt
      · cases hi.symm.trans hj
        exact .inl rfl
      · exact .inr (hseq ▸ hlt)
  have hsome : (m.uses.entries.find? fun u =>
      m.uses.entries.all fun w => u.2.precedes w.2).isSome := by
    rw [List.find?_isSome]
    refine ⟨(a.key, least), (Dict.get?_eq_some_iff ..).1 hleast, List.all_eq_true.2 ?_⟩
    rintro ⟨k, u⟩ hu
    have hu := (Dict.get?_eq_some_iff ..).2 hu
    simp only [Use.precedes, Bool.or_eq_true, Bool.and_eq_true, decide_eq_true_eq]
    rcases hall k u hu with hlt | ⟨heq, rfl | hlt⟩
    · exact .inl hlt
    · cases hu.symm.trans hleast
      exact .inr ⟨rfl, Nat.le_refl _⟩
    · exact .inr ⟨heq, Nat.le_of_lt hlt⟩
  obtain ⟨⟨k, u⟩, hfind⟩ := Option.isSome_iff_exists.1 hsome
  have hu := (Dict.get?_eq_some_iff ..).2 (List.mem_of_find?_eq_some hfind)
  have hminimal := List.find?_some hfind
  have hprecedes := List.all_eq_true.1 hminimal (a.key, least)
    ((Dict.get?_eq_some_iff ..).1 hleast)
  simp only [Use.precedes, Bool.or_eq_true, Bool.and_eq_true, decide_eq_true_eq] at hprecedes
  rw [Frequency.first?, hfind, Option.map_some, Option.some.injEq]
  rcases hall k u hu with hlt | ⟨heq, hkey | hlt⟩
  · omega
  · exact hkey
  · omega

theorem roomy (h : Mirrors e m slots seqOf) (hc : e.capacity ≠ 0) :
    ∃ slots', Mirrors (roomy e) m.roomy slots' seqOf := by
  rw [Frequency.roomy, h.size_eq, h.capacity_eq]
  rcases h.inv.roomy_cases hc with ⟨hlt, heq⟩ | ⟨hle, i, a, hhead, ha, heq⟩
  · rw [if_neg (Nat.not_le.2 hlt), heq]
    exact ⟨slots, h⟩
  · rw [if_pos hle, heq, h.first?_eq hhead ha]
    exact ⟨_, h.without (h.inv.tracks.get?_key ha) ha⟩

theorem put (h : Mirrors e m slots seqOf) (k : K) (v : V) (ttl : Duration) (now : Instant) :
    ∃ slots' seqOf', Mirrors (e.put k v ttl now) (m.put k v ttl now) slots' seqOf' := by
  rw [Frequency.put]
  by_cases hc : e.capacity = 0
  · rw [put_zero hc, if_pos (h.capacity_eq.trans hc)]
    exact ⟨slots, seqOf, h⟩
  rw [if_neg (h.capacity_eq ▸ hc)]
  cases hk : e.table.get? k with
  | some i =>
    obtain ⟨a, ha, rfl⟩ := h.inv.tracks.exists_entry hk
    obtain ⟨f, hf⟩ := h.inv.exists_freq ha
    rw [put_tracked hk hc, h.uses_some hk ha hf]
    refine ⟨_, _, h.enter ((h.inv.setValue i v).touch hf) rfl (fun j => ?_) fun j => ?_⟩
    · split
      · rename_i hj
        rw [← hj, hk]
      · rfl
    · rw [entryAt?_touch, entryAt?_setValue]
      split
      · rename_i hj
        rw [← hj, ha]
        rfl
      · rfl
  | none =>
    obtain ⟨slots', hroomy⟩ := h.roomy hc
    obtain ⟨-, hcapacity, hlt, -⟩ := h.inv.roomy_spec hc
    rw [put_new hk hc, h.uses_none hk]
    have hnew := hroomy.inv.withNew (a := { key := k, value := v, createdAt := now, ttl := ttl })
      (h.inv.roomy_absent hc hk) (hcapacity ▸ hlt)
    have hvacant : dropped slots' (Lfu.roomy e).ranking.nodes.nextSlot = slots' := by
      funext g
      apply dropped_of_notMem
      intro hg
      have hsome := hroomy.inv.ranked.filed.isSome_get? hg
      rw [hroomy.inv.wellFormed.get?_nextSlot] at hsome
      cases hsome
    rw [← hvacant] at hnew
    refine ⟨_, _, hroomy.enter hnew rfl (fun j => ?_) fun j => ?_⟩
    · exact Dict.get?_insert ..
    · exact entryAt?_insert hroomy.inv.wellFormed ..

/-- Dropping the expired entries in some slots drops those of the same keys from the tally. -/
theorem expired (h : Mirrors e m slots seqOf) (keys : K → Bool) {now : Instant}
    {visited : Nat → Bool}
    (agree : ∀ i a, e.ranking.entryAt? i = some a → keys a.key = visited i) {n : Nat}
    (hpurged : Purged e slots (Sweep.doomed e.ranking.entryAt? now visited) n e') :
    n = (m.expire now keys).1 ∧ ∃ slots', Mirrors e' (m.expire now keys).2 slots' seqOf := by
  have hdoomed : ∀ i a, e.ranking.entryAt? i = some a →
      Sweep.doomed e.ranking.entryAt? now visited i = (keys a.key && a.isExpired now) := by
    intro i a ha
    rw [Sweep.doomed, ha, agree i a ha]
    rfl
  have hmirrors : Mirrors e' (m.expire now keys).2
      (fun f => (slots f).filter fun i => !Sweep.doomed e.ranking.entryAt? now visited i) seqOf := by
    refine ⟨hpurged.inv, h.capacity_eq.trans hpurged.capacity_eq.symm, fun k u => ?_,
      fun f => (h.ordered f).sublist List.filter_sublist,
      fun f i hi => h.recent f i (List.mem_of_mem_filter hi)⟩
    rw [Frequency.expire, Dict.get?_filter_eq_some_iff]
    constructor
    · rintro ⟨hu, hkeep⟩
      obtain ⟨i, hi, rfl, hf, hseq⟩ := h.exists_slot hu
      have hgone := hdoomed i u.entry hi
      rw [Bool.not_eq_true'] at hkeep
      rw [hkeep] at hgone
      have hi' := hpurged.entryAt?_eq i
      rw [if_neg (by simp [hgone]), hi] at hi'
      exact ⟨i, hpurged.inv.tracks.get?_key hi', hi', List.mem_filter.2 ⟨hf, by simp [hgone]⟩, hseq⟩
    · rintro ⟨i, hk, hi, hf, hseq⟩
      obtain rfl := (hpurged.inv.tracks.key_eq_iff hk hi).2 rfl
      rw [hpurged.entryAt?_eq] at hi
      split at hi
      · cases hi
      · rename_i hgone
        rw [hdoomed i u.entry hi] at hgone
        refine ⟨(h.uses_iff _ u).2
          ⟨i, h.inv.tracks.get?_key hi, hi, List.mem_of_mem_filter hf, hseq⟩, ?_⟩
        rw [Bool.not_eq_true', ← Bool.not_eq_true]
        exact hgone
  refine ⟨?_, _, hmirrors⟩
  have hsize := hpurged.size_eq
  rw [← hmirrors.size_eq, ← h.size_eq] at hsize
  have hsplit := m.uses.countP_add_size_filter fun k u => keys k && u.entry.isExpired now
  simp only [Frequency.expire] at hsize ⊢
  omega

theorem swept (h : Mirrors e m slots seqOf) (cursor budget : Nat) (now : Instant) :
    let keys k := (e.table.get? k).any (Sweep.covers cursor budget)
    (e.sweep cursor budget now).1.removed = (m.expire now keys).1 ∧
      ∃ slots', Mirrors (e.sweep cursor budget now).2 (m.expire now keys).2 slots' seqOf := by
  intro keys
  exact h.expired keys (fun i a hi => h.inv.tracks.any_get?_key hi _)
    (h.inv.sweep cursor budget now)

theorem purged (h : Mirrors e m slots seqOf) (hcount : e.ranking.nodes.slotCount ≤ Word.max)
    (now : Instant) :
    (e.purge now).1 = (m.expire now fun _ => true).1 ∧
      ∃ slots', Mirrors (e.purge now).2 (m.expire now fun _ => true).2 slots' seqOf :=
  h.expired (fun _ => true) (fun _ _ _ => rfl) (h.inv.purge hcount now)

theorem cleared (h : Mirrors e m slots seqOf) :
    Mirrors e.clear { m with uses := Dict.empty } (fun _ => []) seqOf where
  inv := Inv.new e.capacity
  capacity_eq := h.capacity_eq
  uses_iff k u := by simp [Lfu.clear, Lfu.new]
  ordered _ := List.Pairwise.nil
  recent _ _ hi := absurd hi List.not_mem_nil

end Mirrors
end BoundedCache.Lfu
