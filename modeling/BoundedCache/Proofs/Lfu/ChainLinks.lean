import BoundedCache.Proofs.Lfu.Chain

/-! # Buckets enter and leave the chain -/
namespace BoundedCache.Lfu.Ranking
open Links
variable {K V : Type} {r : Ranking K V} {f : Nat} {fs xs ys : List Nat}

/-! ## Linking a bucket -/

theorem linkBucket_of_mem (h : Chained r fs) (hf : f ∈ fs) (lower? : Option Nat) :
    r.linkBucket f lower? = r :=
  if_pos ((h.mem_iff f).1 hf)

/-- The writes that link a bucket between two parts of the chain. -/
theorem linkBucket_eq (h : Chained r (xs ++ ys)) (hf : f ∉ xs ++ ys) :
    r.linkBucket f xs.getLast? =
      (({ r with buckets := r.buckets.insert f ⟨none, none, xs.getLast?, ys.head?⟩ } :
        Ranking K V).setHigher xs.getLast? (some f)).setLower ys.head? (some f) := by
  have hhigher := h.higher xs.getLast? fun g hg => List.mem_append_left _ (List.mem_of_getLast? hg)
  rw [after_getLast? h.nodup] at hhigher
  have habsent : ¬ r.buckets.contains f = true := by
    simp [Dict.contains, h.get?_eq_none hf]
  unfold linkBucket
  rw [if_neg habsent]
  cases hlast : xs.getLast? with
  | none =>
    rw [hlast, higherOf?, Option.some.injEq] at hhigher
    simp only [hhigher, id]
  | some g =>
    rw [hlast, higherOf?, Option.map_eq_some_iff] at hhigher
    obtain ⟨b, hb, hbh⟩ := hhigher
    simp only [hb, Option.bind_some, hbh, id]

theorem get?_linkBucket (h : Chained r (xs ++ ys)) (hf : f ∉ xs ++ ys) (g : Nat) :
    (r.linkBucket f xs.getLast?).buckets.get? g =
      if f = g then some ⟨none, none, xs.getLast?, ys.head?⟩
      else (r.buckets.get? g).map fun b =>
        { b with
          higher? := if xs.getLast? = some g then some f else b.higher?
          lower? := if ys.head? = some g then some f else b.lower? } := by
  have hlast : f = g → xs.getLast? ≠ some g := by
    rintro rfl hmem
    exact hf (List.mem_append_left _ (List.mem_of_getLast? hmem))
  have hhead : f = g → ys.head? ≠ some g := by
    rintro rfl hmem
    exact hf (List.mem_append_right _ (List.mem_of_mem_head? hmem))
  rw [linkBucket_eq h hf, get?_setLower, get?_setHigher, Dict.get?_insert]
  by_cases hfg : f = g
  · rw [if_neg (hhead hfg), if_neg (hlast hfg), if_pos hfg, if_pos hfg]
  · rw [if_neg hfg, if_neg hfg]
    cases r.buckets.get? g with
    | none => split <;> split <;> rfl
    | some b => split <;> split <;> rfl

/-- A new bucket takes its place in the chain. -/
theorem Chained.linkBucket (h : Chained r (xs ++ ys)) (sorted : (xs ++ f :: ys).Pairwise (· < ·)) :
    Chained (r.linkBucket f xs.getLast?) (xs ++ f :: ys) := by
  have hnodup : (xs ++ f :: ys).Nodup := sorted.imp Nat.ne_of_lt
  have hf : f ∉ xs ++ ys := (List.nodup_cons.1 (List.nodup_middle.1 hnodup)).1
  have hget := get?_linkBucket h hf
  have mem_iff : ∀ g, g ∈ xs ++ f :: ys ↔
      ((r.linkBucket f xs.getLast?).buckets.get? g).isSome := by
    intro g
    rw [hget]
    split
    · rename_i hfg
      simp [hfg]
    · rename_i hfg
      rw [Option.isSome_map, ← h.mem_iff]
      simp [Ne.symm hfg]
  have minFreq_eq : (r.linkBucket f xs.getLast?).minFreq = (xs ++ f :: ys).head?.getD 0 := by
    rw [linkBucket_eq h hf, minFreq_setLower, minFreq_setHigher, h.minFreq_eq]
    cases xs with
    | nil => rfl
    | cons x xs => simp [List.getLast?_cons]
  have hlowest := Ranking.lowest?_eq mem_iff minFreq_eq
  refine ⟨sorted, mem_iff, minFreq_eq, ?_, ?_⟩
  · apply h.higher.insert hnodup
    · cases hlast : xs.getLast? with
      | none =>
        rw [hlast] at hlowest
        rw [higherOf?, hlowest, List.getLast?_eq_none_iff.1 hlast]
        rfl
      | some g =>
        have hmem := List.mem_append_left ys (List.mem_of_getLast? hlast)
        obtain ⟨b, hb⟩ := Option.isSome_iff_exists.1 ((h.mem_iff g).1 hmem)
        have hfg : f ≠ g := fun e => hf (e ▸ hmem)
        rw [hlast] at hget
        rw [higherOf?, hget, if_neg hfg, hb]
        simp
    · rw [higherOf?, hget, if_pos rfl]
      rfl
    · intro o ho hne
      cases o with
      | none =>
        cases xs with
        | nil => exact absurd rfl hne
        | cons x xs =>
          rw [higherOf?, higherOf?, hlowest, h.lowest?_eq]
          rfl
      | some g =>
        have hfg : f ≠ g := fun e => hf (e ▸ ho g rfl)
        rw [higherOf?, higherOf?, hget, if_neg hfg, Option.map_map]
        simp [Function.comp_def, Ne.symm hne]
  · apply h.lower.insert_reverse hnodup
    · cases hhead : ys.head? with
      | none =>
        rw [lowerOf?, List.head?_eq_none_iff.1 hhead, List.getLast?_concat]
        rfl
      | some g =>
        have hmem := List.mem_append_right xs (List.mem_of_mem_head? hhead)
        obtain ⟨b, hb⟩ := Option.isSome_iff_exists.1 ((h.mem_iff g).1 hmem)
        have hfg : f ≠ g := fun e => hf (e ▸ hmem)
        rw [lowerOf?, hget, if_neg hfg, hb, hhead]
        simp
    · rw [lowerOf?, hget, if_pos rfl]
      rfl
    · intro o ho hne
      cases o with
      | none =>
        cases ys with
        | nil => exact absurd rfl hne
        | cons y ys => simp [lowerOf?, List.getLast?_append, List.getLast?_cons]
      | some g =>
        have hfg : f ≠ g := fun e => hf (e ▸ ho g rfl)
        rw [lowerOf?, lowerOf?, hget, if_neg hfg, Option.map_map]
        simp [Function.comp_def, Ne.symm hne]

/-! ## Unlinking a bucket -/

/-- The writes that close the gap of a bucket between two parts of the chain. -/
theorem unlinkBucket_eq (h : Chained r (xs ++ f :: ys)) :
    r.unlinkBucket f =
      (({ r with buckets := r.buckets.erase f } : Ranking K V).setHigher
        xs.getLast? ys.head?).setLower ys.head? xs.getLast? := by
  have hhigher := h.higher (some f) (by simp)
  have hlower := h.lower (some f) (by simp)
  rw [after_middle h.nodup, higherOf?, Option.map_eq_some_iff] at hhigher
  rw [after_reverse_middle h.nodup, lowerOf?, Option.map_eq_some_iff] at hlower
  obtain ⟨b, hb, hbh⟩ := hhigher
  obtain ⟨b', hb', hbl⟩ := hlower
  cases hb.symm.trans hb'
  rw [unlinkBucket, hb]
  simp only [hbh, hbl, id]

theorem get?_unlinkBucket (h : Chained r (xs ++ f :: ys)) (g : Nat) :
    (r.unlinkBucket f).buckets.get? g =
      if f = g then none
      else (r.buckets.get? g).map fun b =>
        { b with
          higher? := if xs.getLast? = some g then ys.head? else b.higher?
          lower? := if ys.head? = some g then xs.getLast? else b.lower? } := by
  rw [unlinkBucket_eq h, get?_setLower, get?_setHigher, Dict.get?_erase]
  by_cases hfg : f = g
  · rw [if_pos hfg, if_pos hfg]
    split <;> split <;> rfl
  · rw [if_neg hfg, if_neg hfg]
    cases r.buckets.get? g with
    | none => split <;> split <;> rfl
    | some b => split <;> split <;> rfl

/-- The chain closes where a bucket leaves it. -/
theorem Chained.unlinkBucket (h : Chained r (xs ++ f :: ys)) :
    Chained (r.unlinkBucket f) (xs ++ ys) := by
  obtain ⟨hf, hnodup⟩ := List.nodup_cons.1 (List.nodup_middle.1 h.nodup)
  have hget := get?_unlinkBucket h
  have mem_iff : ∀ g, g ∈ xs ++ ys ↔ ((r.unlinkBucket f).buckets.get? g).isSome := by
    intro g
    rw [hget]
    by_cases hfg : f = g
    · subst hfg
      simpa using hf
    · rw [if_neg hfg, Option.isSome_map, ← h.mem_iff]
      simp [Ne.symm hfg]
  have minFreq_eq : (r.unlinkBucket f).minFreq = (xs ++ ys).head?.getD 0 := by
    rw [unlinkBucket_eq h, minFreq_setLower, minFreq_setHigher, h.minFreq_eq]
    cases xs with
    | nil => rfl
    | cons x xs => simp [List.getLast?_cons]
  have hlowest := Ranking.lowest?_eq mem_iff minFreq_eq
  have hsub : (xs ++ ys).Sublist (xs ++ f :: ys) :=
    (List.Sublist.refl xs).append (List.sublist_cons_self f ys)
  refine ⟨h.sorted.sublist hsub, mem_iff, minFreq_eq, ?_, ?_⟩
  · apply h.higher.erase h.nodup
    · cases hlast : xs.getLast? with
      | none =>
        rw [higherOf?, hlowest, List.getLast?_eq_none_iff.1 hlast]
        rfl
      | some g =>
        have hmem := List.mem_append_left ys (List.mem_of_getLast? hlast)
        obtain ⟨b, hb⟩ := Option.isSome_iff_exists.1 ((h.mem_iff g).1 (hsub.subset hmem))
        have hfg : f ≠ g := fun e => hf (e ▸ hmem)
        rw [higherOf?, hget, if_neg hfg, hb, hlast]
        simp
    · intro o ho hne
      cases o with
      | none =>
        cases xs with
        | nil => exact absurd rfl hne
        | cons x xs =>
          rw [higherOf?, higherOf?, hlowest, h.lowest?_eq]
          rfl
      | some g =>
        have hfg : f ≠ g := fun e => hf (e ▸ ho g rfl)
        rw [higherOf?, higherOf?, hget, if_neg hfg, Option.map_map]
        simp [Function.comp_def, Ne.symm hne]
  · apply h.lower.erase_reverse h.nodup
    · cases hhead : ys.head? with
      | none =>
        rw [lowerOf?, List.head?_eq_none_iff.1 hhead, List.append_nil]
        rfl
      | some g =>
        have hmem := List.mem_append_right xs (List.mem_of_mem_head? hhead)
        obtain ⟨b, hb⟩ := Option.isSome_iff_exists.1 ((h.mem_iff g).1 (hsub.subset hmem))
        have hfg : f ≠ g := fun e => hf (e ▸ hmem)
        rw [lowerOf?, hget, if_neg hfg, hb, hhead]
        simp
    · intro o ho hne
      cases o with
      | none =>
        cases ys with
        | nil => exact absurd rfl hne
        | cons y ys => simp [lowerOf?, List.getLast?_append, List.getLast?_cons]
      | some g =>
        have hfg : f ≠ g := fun e => hf (e ▸ ho g rfl)
        rw [lowerOf?, lowerOf?, hget, if_neg hfg, Option.map_map]
        simp [Function.comp_def, Ne.symm hne]

/-! ## The buckets that an operation leaves -/

theorem Chained.exists_linkBucket_above (h : Chained r fs) (hf : f ∈ fs) :
    ∃ gs, Chained (r.linkBucket (f + 1) (some f)) gs ∧ ∀ g, g ∈ gs ↔ g = f + 1 ∨ g ∈ fs := by
  by_cases hnext : f + 1 ∈ fs
  · refine ⟨fs, by rwa [linkBucket_of_mem h hnext], fun g => ?_⟩
    rw [iff_or_self]
    rintro rfl
    exact hnext
  · obtain ⟨xs, ys, rfl⟩ := List.append_of_mem hf
    have hsplit : xs ++ f :: ys = (xs ++ [f]) ++ ys := by simp
    rw [hsplit] at h hnext ⊢
    obtain ⟨hxs, hys, hlt⟩ := List.pairwise_append.1 h.sorted
    have hlinked := h.linkBucket (f := f + 1) ?_
    · rw [List.getLast?_concat] at hlinked
      exact ⟨_, hlinked, fun g => by simp [or_left_comm]⟩
    · have hbelow : ∀ g ∈ xs ++ [f], g < f + 1 := by
        intro g hg
        rcases List.mem_append.1 hg with hx | hx
        · exact Nat.lt_succ_of_lt ((List.pairwise_append.1 hxs).2.2 g hx f (by simp))
        · rw [List.mem_singleton.1 hx]
          exact Nat.lt_succ_self f
      have habove : ∀ g ∈ ys, f + 1 < g := by
        intro g hg
        have hgf := hlt f (by simp) g hg
        have hne : g ≠ f + 1 := fun e => hnext (e ▸ List.mem_append_right _ hg)
        omega
      refine List.pairwise_append.2 ⟨hxs, List.pairwise_cons.2 ⟨habove, hys⟩, ?_⟩
      intro g hg j hj
      rcases List.mem_cons.1 hj with rfl | hj
      · exact hbelow g hg
      · exact hlt g hg j hj

theorem Chained.exists_linkBucket_one (h : Chained r fs) (positive : 0 ∉ fs) :
    ∃ gs, Chained (r.linkBucket 1 none) gs ∧ ∀ g, g ∈ gs ↔ g = 1 ∨ g ∈ fs := by
  by_cases hone : 1 ∈ fs
  · refine ⟨fs, by rwa [linkBucket_of_mem h hone], fun g => ?_⟩
    rw [iff_or_self]
    rintro rfl
    exact hone
  · have habove : ∀ g ∈ fs, 1 < g := by
      intro g hg
      have h0 : g ≠ 0 := fun e => positive (e ▸ hg)
      have h1 : g ≠ 1 := fun e => hone (e ▸ hg)
      omega
    have hsplit : Chained r ([] ++ fs) := h
    exact ⟨_, hsplit.linkBucket (List.pairwise_cons.2 ⟨habove, h.sorted⟩), fun g => List.mem_cons⟩

theorem Chained.exists_unlinkBucket (h : Chained r fs) (hf : f ∈ fs) :
    ∃ gs, Chained (r.unlinkBucket f) gs ∧ ∀ g, g ∈ gs ↔ g ≠ f ∧ g ∈ fs := by
  obtain ⟨xs, ys, rfl⟩ := List.append_of_mem hf
  have hnot := (List.nodup_cons.1 (List.nodup_middle.1 h.nodup)).1
  refine ⟨xs ++ ys, h.unlinkBucket, fun g => ?_⟩
  by_cases hg : g = f
  · subst hg
    simpa using hnot
  · simp [hg]

end BoundedCache.Lfu.Ranking
