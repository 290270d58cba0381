import BoundedCache.Proofs.Lfu.ChainLinks
import BoundedCache.Proofs.Lfu.Refiling

/-! # A ranking chains the frequencies in use and files their slots -/
namespace BoundedCache.Lfu.Ranking
open Links
variable {K V : Type} {r r' : Ranking K V} {f g i : Nat} {fs : List Nat} {slots : Nat → List Nat}

/-- The slots of every frequency without one. -/
def dropped (slots : Nat → List Nat) (i : Nat) (g : Nat) : List Nat := (slots g).filter (· ≠ i)

/-- The buckets file the slots and are chained in the order of their frequencies, which are those
in use and all positive. -/
structure Ranked (r : Ranking K V) (slots : Nat → List Nat) : Prop where
  filed : Filed r slots
  chained : ∃ fs, Chained r fs ∧ ∀ f, f ∈ fs ↔ slots f ≠ []
  positive : slots 0 = []

/-! ## Buckets come and go -/

@[simp] theorem nodes_linkBucket (r : Ranking K V) (f : Nat) (lower? : Option Nat) :
    (r.linkBucket f lower?).nodes = r.nodes := by
  unfold linkBucket
  split
  · rfl
  · simp only [nodes_setLower, nodes_setHigher]

@[simp] theorem nodes_unlinkBucket (r : Ranking K V) (f : Nat) :
    (r.unlinkBucket f).nodes = r.nodes := by
  rw [unlinkBucket]
  split
  · simp only [nodes_setLower, nodes_setHigher]
  · rfl

/-- An end of a bucket does not depend on its place in the chain. -/
def Chainless (end? : Bucket → Option Nat) : Prop :=
  ∀ b lower? higher?, end? { b with lower?, higher? } = end? b

theorem chainless_head? : Chainless Bucket.head? := fun _ _ _ => rfl

theorem chainless_tail? : Chainless Bucket.tail? := fun _ _ _ => rfl

theorem ends_setHigher {end? : Bucket → Option Nat} (hend : Chainless end?) (r : Ranking K V)
    (o p : Option Nat) (g : Nat) :
    ((r.setHigher o p).buckets.get? g).bind end? = (r.buckets.get? g).bind end? := by
  rw [get?_setHigher]
  split
  · cases r.buckets.get? g with
    | none => rfl
    | some b => exact hend b b.lower? p
  · rfl

theorem ends_setLower {end? : Bucket → Option Nat} (hend : Chainless end?) (r : Ranking K V)
    (o p : Option Nat) (g : Nat) :
    ((r.setLower o p).buckets.get? g).bind end? = (r.buckets.get? g).bind end? := by
  rw [get?_setLower]
  split
  · cases r.buckets.get? g with
    | none => rfl
    | some b => exact hend b p b.higher?
  · rfl

/-- A new bucket is empty, and the others keep their ends. -/
theorem ends_linkBucket {end? : Bucket → Option Nat} (hend : Chainless end?)
    (hnew : ∀ lower? higher?, end? ⟨none, none, lower?, higher?⟩ = none) (r : Ranking K V) (f : Nat)
    (lower? : Option Nat) (g : Nat) :
    ((r.linkBucket f lower?).buckets.get? g).bind end? = (r.buckets.get? g).bind end? := by
  unfold linkBucket
  split
  · rfl
  · rename_i habsent
    have hnone : r.buckets.get? f = none := by simpa [Dict.contains] using habsent
    simp only [ends_setLower hend, ends_setHigher hend, Dict.get?_insert]
    split
    · rename_i hfg
      subst hfg
      simp only [hnone, Option.bind_some, hnew, Option.bind_none]
    · rfl

/-- A bucket that has lost this end is not missed, and the others keep theirs. -/
theorem ends_unlinkBucket {end? : Bucket → Option Nat} (hend : Chainless end?)
    (hf : (r.buckets.get? f).bind end? = none) (g : Nat) :
    ((r.unlinkBucket f).buckets.get? g).bind end? = (r.buckets.get? g).bind end? := by
  rw [unlinkBucket]
  split
  · simp only [ends_setLower hend, ends_setHigher hend, Dict.get?_erase]
    split
    · rename_i hfg
      subst hfg
      exact hf.symm
    · rfl
  · rfl

namespace Filed

theorem linkBucket (h : Filed r slots) (f : Nat) (lower? : Option Nat) :
    Filed (r.linkBucket f lower?) slots :=
  h.congr (fun _ _ _ => by rw [nodes_linkBucket])
    (ends_linkBucket chainless_head? (fun _ _ => rfl) r f lower?)
    (ends_linkBucket chainless_tail? (fun _ _ => rfl) r f lower?)

theorem unlinkBucket (h : Filed r slots) (hf : slots f = []) : Filed (r.unlinkBucket f) slots := by
  have hhead := h.head?_eq f
  have htail := h.tail?_eq f
  rw [hf] at hhead htail
  exact h.congr (fun _ _ _ => by rw [nodes_unlinkBucket])
    (ends_unlinkBucket chainless_head? hhead) (ends_unlinkBucket chainless_tail? htail)

/-- Taking a node out of its bucket takes the bucket out of the chain with the last node. -/
theorem unlink (h : Filed r slots) (hi : i ∈ slots f) (chained : Chained r fs) :
    Filed (r.unlink i) (dropped slots i) ∧
      ∃ gs, Chained (r.unlink i) gs ∧ ∀ g, g ∈ gs ↔ g ∈ fs ∧ (g = f → dropped slots i g ≠ []) := by
  obtain ⟨node, hnode⟩ := Option.isSome_iff_exists.1 (h.isSome_get? hi)
  have hfreq := h.freq_eq f i hi
  rw [hnode, Option.map_some, Option.some.injEq] at hfreq
  have hfiled : Filed (r.bypass i node) (dropped slots i) := h.bypass hi hnode
  have hchained := chained.congr (SameChain.bypass r i node)
  have hmem : f ∈ fs := (chained.mem_iff f).2 (h.isSome_bucket (List.ne_nil_of_mem hi))
  rw [unlink_eq hnode, hfreq, hfiled.head?_eq]
  split
  · rename_i hempty
    rw [List.head?_eq_none_iff] at hempty
    obtain ⟨gs, hgs, hiff⟩ := hchained.exists_unlinkBucket hmem
    refine ⟨hfiled.unlinkBucket hempty, gs, hgs, fun g => ?_⟩
    rw [hiff, and_comm]
    refine and_congr_right fun _ => ⟨fun hgf e => absurd e hgf, fun himp e => ?_⟩
    exact himp e (e ▸ hempty)
  · rename_i hne
    refine ⟨hfiled, fs, hchained, fun g => ?_⟩
    rw [iff_self_and]
    rintro - rfl e
    exact hne (by rw [e]; rfl)

end Filed

theorem alike_unlink {β : Type} {view : Node K V → β} (hview : Linkless view) (r : Ranking K V)
    (i : Nat) : Slab.Alike view r.nodes (r.unlink i).nodes := by
  cases hi : r.nodes.get? i with
  | none =>
    rw [Ranking.unlink, hi]
    exact Slab.Alike.refl ..
  | some node =>
    rw [unlink_eq hi]
    split
    · rw [nodes_unlinkBucket]
      exact alike_bypass hview ..
    · exact alike_bypass hview ..

theorem alike_touch (r : Ranking K V) (i : Nat) :
    Slab.Alike Node.entry r.nodes (r.touch i).nodes := by
  rw [touch]
  split
  · rename_i node hnode
    have hlink := alike_unlink linkless_entry (r.linkBucket (node.freq + 1) (some node.freq)) i
    rw [nodes_linkBucket] at hlink
    exact hlink.trans (alike_pushBack ..)
  · exact Slab.Alike.refl ..

/-! ## Operations on the ranking -/

theorem not_mem_dropped (slots : Nat → List Nat) (i g : Nat) : i ∉ dropped slots i g := by
  simp [dropped]

theorem dropped_of_notMem (h : i ∉ slots g) : dropped slots i g = slots g := filter_ne_of_notMem h

theorem mem_dropped {j : Nat} : j ∈ dropped slots i g ↔ j ∈ slots g ∧ j ≠ i := by
  simp [dropped]

theorem mem_appended {j : Nat} :
    j ∈ appended slots f i g ↔ j ∈ slots g ∨ g = f ∧ j = i := by
  rw [appended]
  split
  · rename_i hgf
    simp [hgf]
  · rename_i hgf
    simp [hgf]

theorem ranked_empty : Ranked (empty : Ranking K V) fun _ => [] :=
  ⟨filed_empty, ⟨[], chained_empty, fun _ => by simp⟩, rfl⟩

namespace Ranked

/-- Taking a node out leaves a chain of the frequencies that are still in use. -/
theorem unlink (h : Ranked r slots) (hi : i ∈ slots f) :
    Ranked (r.unlink i) (dropped slots i) := by
  obtain ⟨fs, hchained, hmem⟩ := h.chained
  obtain ⟨hfiled, gs, hgs, hiff⟩ := h.filed.unlink hi hchained
  refine ⟨hfiled, ⟨gs, hgs, fun g => ?_⟩, by rw [dropped, h.positive]; rfl⟩
  rw [hiff, hmem]
  by_cases hg : g = f
  · subst hg
    simp [List.ne_nil_of_mem hi]
  · have hig : i ∉ slots g := fun hmem => hg (h.filed.unique hmem hi)
    simp [hg, dropped_of_notMem hig]

/-- A use moves a node to the end of the next frequency. -/
theorem touch (h : Ranked r slots) (hi : i ∈ slots f) :
    Ranked (r.touch i) (appended (dropped slots i) (f + 1) i) := by
  obtain ⟨fs, hchained, hmem⟩ := h.chained
  obtain ⟨node, hnode⟩ := Option.isSome_iff_exists.1 (h.filed.isSome_get? hi)
  have hfreq := h.filed.freq_eq f i hi
  rw [hnode, Option.map_some, Option.some.injEq] at hfreq
  obtain ⟨gs, hgs, hlink⟩ :=
    hchained.exists_linkBucket_above ((hmem f).2 (List.ne_nil_of_mem hi))
  obtain ⟨hfiled, gs', hgs', hunlink⟩ :=
    (h.filed.linkBucket (f + 1) (some f)).unlink hi hgs
  have hnext : f + 1 ∈ gs' := (hunlink _).2 ⟨(hlink _).2 (.inl rfl), by omega⟩
  have hoccupied : (((r.linkBucket (f + 1) (some f)).unlink i).nodes.get? i).isSome := by
    rw [(alike_unlink linkless_freq ..).isSome_get?, nodes_linkBucket, hnode]
    rfl
  have htouch : r.touch i = ((r.linkBucket (f + 1) (some f)).unlink i).pushBack i (f + 1) := by
    rw [Ranking.touch, hnode]
    simp only [hfreq]
  rw [htouch]
  -- only the frequency that the node left can have become empty, and its bucket is gone then
  refine ⟨hfiled.pushBack (not_mem_dropped slots i) hoccupied ((hgs'.mem_iff _).1 hnext),
    ⟨gs', hgs'.congr (SameChain.pushBack ..), fun g => ?_⟩, ?_⟩
  · by_cases hg : g = f + 1
    · simp [appended, hg, hnext]
    · rw [hunlink, hlink, hmem, appended, if_neg hg]
      by_cases hgf : g = f
      · subst hgf
        simp [List.ne_nil_of_mem hi]
      · have hig : i ∉ slots g := fun hmem => hgf (h.filed.unique hmem hi)
        simp [hg, hgf, dropped_of_notMem hig]
  · rw [appended, if_neg (by omega), dropped, h.positive]
    rfl

theorem congr (h : Ranked r slots) (buckets : r'.buckets = r.buckets) (minFreq : r'.minFreq = r.minFreq)
    (links : ∀ f, ∀ i ∈ slots f,
      (r'.nodes.get? i).map Node.links = (r.nodes.get? i).map Node.links) :
    Ranked r' slots := by
  obtain ⟨fs, hchained, hmem⟩ := h.chained
  have hsame : SameChain r r' := ⟨by simp [buckets], by simp [buckets], minFreq⟩
  exact ⟨h.filed.congr links (by simp [buckets]) (by simp [buckets]),
    ⟨fs, hchained.congr hsame, hmem⟩, h.positive⟩

theorem setValue (h : Ranked r slots) (i : Nat) (v : V) : Ranked (r.setValue i v) slots :=
  h.congr rfl rfl fun f j _ => by
    simp only [Ranking.setValue, modifyNode, Slab.get?_modify]
    split
    · rw [Option.map_map]
      rfl
    · rfl

/-- A node that was taken out leaves its slot. -/
theorem remove (h : Ranked r slots) (hi : i ∈ slots f) :
    Ranked (r.remove i).2 (dropped slots i) := by
  refine (h.unlink hi).congr rfl rfl fun g j hj => ?_
  have hij : i ≠ j := fun e => not_mem_dropped slots i g (by rwa [← e] at hj)
  simp [Ranking.remove, Slab.get?_remove, hij]

/-- A new node stands at the end of frequency one. -/
theorem insert (h : Ranked r slots) (wellFormed : r.nodes.WellFormed) (a : Entry K V) :
    Ranked (r.insert a).2 (appended slots 1 r.nodes.nextSlot) := by
  have hget := wellFormed.get?_insert ({ entry := a, freq := 1 } : Node K V)
  have hvacant : ∀ g, r.nodes.nextSlot ∉ slots g := by
    intro g hg
    have hsome := h.filed.isSome_get? hg
    rw [wellFormed.get?_nextSlot] at hsome
    cases hsome
  let r₁ : Ranking K V := { r with nodes := (r.nodes.insert { entry := a, freq := 1 }).2 }
  have hinsert : (r.insert a).2 = (r₁.linkBucket 1 none).pushBack r.nodes.nextSlot 1 := by
    rw [← Slab.fst_insert r.nodes { entry := a, freq := 1 }]
    rfl
  have hranked : Ranked r₁ slots := h.congr rfl rfl fun g j hj => by
    have hne : r.nodes.nextSlot ≠ j := fun e => hvacant g (by rwa [← e] at hj)
    rw [hget, if_neg hne]
  obtain ⟨fs, hchained, hmem⟩ := hranked.chained
  have hzero : 0 ∉ fs := by
    rw [hmem, h.positive]
    simp
  obtain ⟨gs, hgs, hlink⟩ := hchained.exists_linkBucket_one hzero
  have hone : 1 ∈ gs := (hlink 1).2 (.inl rfl)
  have hoccupied : ((r₁.linkBucket 1 none).nodes.get? r.nodes.nextSlot).isSome := by
    rw [nodes_linkBucket, hget, if_pos rfl]
    rfl
  rw [hinsert]
  refine ⟨(hranked.filed.linkBucket 1 none).pushBack hvacant hoccupied ((hgs.mem_iff 1).1 hone),
    ⟨gs, hgs.congr (SameChain.pushBack ..), fun g => ?_⟩, h.positive⟩
  rw [hlink, hmem, appended]
  split
  · rename_i hg
    simp [hg]
  · rename_i hg
    simp [hg]

/-! ## The lowest frequency -/

theorem first?_eq (h : Ranked r slots) : r.first? = (slots r.minFreq).head? :=
  h.filed.head?_eq r.minFreq

theorem minFreq_le (h : Ranked r slots) (hg : slots g ≠ []) : r.minFreq ≤ g := by
  obtain ⟨fs, hchained, hmem⟩ := h.chained
  have hgfs := (hmem g).2 hg
  have hsorted := hchained.sorted
  rw [hchained.minFreq_eq]
  cases fs with
  | nil => exact absurd hgfs List.not_mem_nil
  | cons f fs =>
    rcases List.mem_cons.1 hgfs with rfl | hgfs
    · exact Nat.le_refl _
    · exact Nat.le_of_lt ((List.pairwise_cons.1 hsorted).1 g hgfs)

/-- The lowest frequency is in use if any is. -/
theorem slots_minFreq (h : Ranked r slots) (hg : slots g ≠ []) : slots r.minFreq ≠ [] := by
  obtain ⟨fs, hchained, hmem⟩ := h.chained
  have hgfs := (hmem g).2 hg
  rw [hchained.minFreq_eq, ← hmem]
  cases fs with
  | nil => exact absurd hgfs List.not_mem_nil
  | cons f fs => exact List.mem_cons_self

theorem minFreq_eq_zero_iff (h : Ranked r slots) : r.minFreq = 0 ↔ ∀ g, slots g = [] := by
  constructor
  · intro hzero g
    by_contra hg
    exact h.slots_minFreq hg (hzero ▸ h.positive)
  · intro hnil
    obtain ⟨fs, hchained, hmem⟩ := h.chained
    rw [hchained.minFreq_eq]
    cases fs with
    | nil => rfl
    | cons f fs => exact absurd (hnil f) ((hmem f).1 List.mem_cons_self)

end Ranked

end BoundedCache.Lfu.Ranking
