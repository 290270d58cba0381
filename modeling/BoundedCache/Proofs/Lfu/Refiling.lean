import BoundedCache.Proofs.Lfu.Files

/-! # Nodes leave their files and enter others -/
namespace BoundedCache.Lfu.Ranking
open Links
variable {K V : Type} {r : Ranking K V} {f g i : Nat} {slots : Nat → List Nat} {node : Node K V}

/-! ## Taking a node out of its bucket -/

/-- The writes that close the gap of a node in its bucket. -/
def bypass (r : Ranking K V) (i : Nat) (node : Node K V) : Ranking K V :=
  ((r.setNext node.freq node.prev? node.next?).setPrev node.freq node.next? node.prev?).modifyNode i
    fun node => { node with prev? := none, next? := none }

theorem unlink_eq (hi : r.nodes.get? i = some node) :
    r.unlink i =
      if ((r.bypass i node).buckets.get? node.freq).bind Bucket.head? = none then
        (r.bypass i node).unlinkBucket node.freq
      else r.bypass i node := by
  rw [unlink, hi]
  simp only [bypass]
  split
  · rename_i b hb
    simp only [hb, Option.bind_some, Option.isNone_iff_eq_none]
  · rename_i hb
    simp only [hb, Option.bind_none, if_true, unlinkBucket]

theorem SameChain.bypass (r : Ranking K V) (i : Nat) (node : Node K V) :
    SameChain r (r.bypass i node) :=
  ((SameChain.setNext ..).trans (.setPrev ..)).trans (.modifyNode ..)

theorem alike_bypass {β : Type} {view : Node K V → β} (hview : Linkless view) (r : Ranking K V)
    (i : Nat) (node : Node K V) : Slab.Alike view r.nodes (r.bypass i node).nodes :=
  ((alike_setNext hview ..).trans (alike_setPrev hview ..)).trans
    (Slab.Alike.modify _ i fun node => hview node none none)

namespace Filed

/-- Slots of different frequencies are different. -/
theorem apart (h : Filed r slots) (hfg : f ≠ g) {o q : Option Nat} (ho : ∀ a ∈ o, a ∈ slots f)
    (hq : ∀ a ∈ q, a ∈ slots g) (hoq : o = q) : o = none ∧ f ≠ g := by
  subst hoq
  cases o with
  | none => exact ⟨rfl, hfg⟩
  | some a => exact absurd (h.unique (ho a rfl) (hq a rfl)) hfg

theorem bypass (h : Filed r slots) (hi : i ∈ slots f) (hnode : r.nodes.get? i = some node) :
    Filed (r.bypass i node) fun g => (slots g).filter (· ≠ i) := by
  obtain ⟨xs, ys, hf⟩ := List.append_of_mem hi
  obtain ⟨rfl, hnext, hprev⟩ := h.node_eq hf hnode
  have hnodup := h.nodup node.freq
  rw [hf] at hnodup
  obtain ⟨hnot, -⟩ := List.nodup_cons.1 (List.nodup_middle.1 hnodup)
  have hne : ∀ o : Option Nat, (∀ a ∈ o, a ∈ xs ++ ys) → o ≠ some i := fun o ho e => hnot (ho i e)
  have hlast : ∀ a ∈ xs.getLast?, a ∈ xs ++ ys := fun a ha =>
    List.mem_append_left _ (List.mem_of_getLast? ha)
  have hfirst : ∀ a ∈ ys.head?, a ∈ xs ++ ys := fun a ha =>
    List.mem_append_right _ (List.mem_of_mem_head? ha)
  have hsub : ∀ o : Option Nat, (∀ a ∈ o, a ∈ xs ++ ys) → ∀ a ∈ o, a ∈ slots node.freq := by
    intro o ho a ha
    rw [hf]
    exact ((List.sublist_cons_self i ys).append_left xs).subset (ho a ha)
  have hfull : slots node.freq ≠ [] := List.ne_nil_of_mem hi
  have hother : ∀ g, node.freq ≠ g → i ∉ slots g := fun g hg hmem => hg (h.unique hi hmem)
  refine ⟨fun g => (h.nodup g).filter _, fun g => ?_, fun g => ?_, fun g j hj => ?_⟩
  · by_cases hg : node.freq = g
    · subst hg
      have hleads := h.next node.freq
      rw [hf] at hleads
      rw [hf, filter_ne xs ys hnodup]
      refine hleads.erase hnodup ?_ fun o ho hol => ?_
      · rw [Ranking.bypass, nextOf?_modifyNode_of_ne (hne _ hlast), nextOf?_setPrev, hprev, hnext,
          nextOf?_setNext_self (h.held hfull (hsub _ hlast))]
        rfl
      · rw [Ranking.bypass, nextOf?_modifyNode_of_ne (hne o ho), nextOf?_setPrev, hprev,
          nextOf?_setNext_of_ne fun e => absurd e.symm hol]
    · have hig := hother g hg
      rw [filter_ne_of_notMem hig]
      apply (h.next g).congr
      intro o ho
      rw [Ranking.bypass, nextOf?_modifyNode_of_ne fun e => hig (ho i e), nextOf?_setPrev, hprev,
        nextOf?_setNext_of_ne (h.apart hg (hsub _ hlast) ho)]
  · by_cases hg : node.freq = g
    · subst hg
      have hleads := h.prev node.freq
      rw [hf] at hleads
      rw [hf, filter_ne xs ys hnodup]
      refine hleads.erase_reverse hnodup ?_ fun o ho hol => ?_
      · rw [Ranking.bypass, prevOf?_modifyNode_of_ne (hne _ hfirst), hprev, hnext,
          prevOf?_setPrev_self (held_setNext (h.held hfull (hsub _ hfirst)) ..)]
        rfl
      · rw [Ranking.bypass, prevOf?_modifyNode_of_ne (hne o ho), hnext,
          prevOf?_setPrev_of_ne fun e => absurd e.symm hol, prevOf?_setNext]
    · have hig := hother g hg
      rw [filter_ne_of_notMem hig]
      apply (h.prev g).congr
      intro o ho
      have ho' : ∀ a ∈ o, a ∈ slots g := fun a ha => List.mem_reverse.1 (ho a ha)
      rw [Ranking.bypass, prevOf?_modifyNode_of_ne fun e => hig (ho' i e), hnext,
        prevOf?_setPrev_of_ne (h.apart hg (hsub _ hfirst) ho'), prevOf?_setNext]
  · rw [(alike_bypass linkless_freq r i node).view_eq]
    exact h.freq_eq g j (List.mem_of_mem_filter hj)

end Filed

/-! ## Appending a node to a bucket -/

theorem pushBack_eq (h : Filed r slots) (present : (r.buckets.get? f).isSome) (i : Nat) :
    r.pushBack i f =
      ((r.setPrev f none (some i)).setNext f (slots f).getLast? (some i)).modifyNode i fun node =>
        { node with freq := f, prev? := (slots f).getLast?, next? := none } := by
  obtain ⟨b, hb⟩ := Option.isSome_iff_exists.1 present
  have htail := h.tail?_eq f
  rw [hb, Option.bind_some] at htail
  rw [pushBack, hb]
  simp only [htail]

theorem SameChain.pushBack (r : Ranking K V) (i f : Nat) : SameChain r (r.pushBack i f) := by
  rw [Ranking.pushBack]
  split
  · exact ((SameChain.setPrev ..).trans (.setNext ..)).trans (.modifyNode ..)
  · exact SameChain.refl r

theorem alike_pushBack (r : Ranking K V) (i f : Nat) :
    Slab.Alike Node.entry r.nodes (r.pushBack i f).nodes := by
  rw [Ranking.pushBack]
  split
  · exact ((alike_setPrev linkless_entry ..).trans (alike_setNext linkless_entry ..)).trans
      (Slab.Alike.modify _ i fun _ => rfl)
  · exact Slab.Alike.refl ..

/-- The slots with one more at the end of those of a frequency. -/
def appended (slots : Nat → List Nat) (f i : Nat) (g : Nat) : List Nat :=
  if g = f then slots f ++ [i] else slots g

namespace Filed

theorem pushBack (h : Filed r slots) (hi : ∀ g, i ∉ slots g) (occupied : (r.nodes.get? i).isSome)
    (present : (r.buckets.get? f).isSome) : Filed (r.pushBack i f) (appended slots f i) := by
  obtain ⟨node, hnode⟩ := Option.isSome_iff_exists.1 occupied
  have hlast : ∀ a ∈ (slots f).getLast?, a ∈ slots f := fun a ha => List.mem_of_getLast? ha
  have hstart : Held r f none := present
  have hheld : Held r f (slots f).getLast? := by
    cases hf : (slots f).getLast? with
    | none => exact present
    | some j => exact h.isSome_get? (List.mem_of_getLast? hf)
  have hnode' : ((r.pushBack i f).nodes.get? i).map (fun n => (n.freq, n.next?, n.prev?)) =
      some (f, none, (slots f).getLast?) := by
    have hsome := (alike_setNext linkless_freq (r.setPrev f none (some i)) f (slots f).getLast?
      (some i)).isSome_get? i
    rw [(alike_setPrev linkless_freq r f none (some i)).isSome_get?, hnode] at hsome
    obtain ⟨n, hn⟩ := Option.isSome_iff_exists.1 hsome
    rw [pushBack_eq h present, modifyNode, Slab.get?_modify, if_pos rfl, hn]
    rfl
  have hne : ∀ g, ∀ o : Option Nat, (∀ a ∈ o, a ∈ slots g) → o ≠ some i :=
    fun g o ho e => hi g (ho i e)
  have hnext : ∀ g (o : Option Nat), (∀ a ∈ o, a ∈ slots g) →
      ((slots f).getLast? = o → (slots f).getLast? = none ∧ f ≠ g) →
        (r.pushBack i f).nextOf? g o = r.nextOf? g o := by
    intro g o ho hlo
    rw [pushBack_eq h present, nextOf?_modifyNode_of_ne (hne g o ho),
      nextOf?_setNext_of_ne hlo, nextOf?_setPrev]
  have hprev : ∀ g (o : Option Nat), (∀ a ∈ o, a ∈ slots g) → (none = o → f ≠ g) →
      (r.pushBack i f).prevOf? g o = r.prevOf? g o := by
    intro g o ho hlo
    rw [pushBack_eq h present, prevOf?_modifyNode_of_ne (hne g o ho), prevOf?_setNext,
      prevOf?_setPrev_of_ne fun e => ⟨rfl, hlo e⟩]
  obtain ⟨n, hn, hfields⟩ := Option.map_eq_some_iff.1 hnode'
  simp only [Prod.mk.injEq] at hfields
  obtain ⟨hnfreq, hnnext, hnprev⟩ := hfields
  have hnodup : (slots f ++ i :: []).Nodup := by
    rw [List.nodup_middle, List.append_nil]
    exact List.nodup_cons.2 ⟨hi f, h.nodup f⟩
  refine ⟨fun g => ?_, fun g => ?_, fun g => ?_, fun g j hj => ?_⟩
  · rw [appended]
    split
    · exact hnodup
    · exact h.nodup g
  · by_cases hg : g = f
    · subst hg
      have hleads : Leads (r.nextOf? g) id (slots g ++ []) := by simpa using h.next g
      rw [appended, if_pos rfl]
      refine hleads.insert hnodup ?_ ?_ fun o ho hol => ?_
      · rw [pushBack_eq h present, nextOf?_modifyNode_of_ne (hne g _ hlast),
          nextOf?_setNext_self (held_setPrev hheld ..)]
        rfl
      · rw [nextOf?, hn, Option.map_some, hnnext]
        rfl
      · exact hnext g o (by simpa using ho) fun e => absurd e.symm hol
    · rw [appended, if_neg hg]
      exact (h.next g).congr fun o ho => hnext g o ho (h.apart (Ne.symm hg) hlast ho)
  · by_cases hg : g = f
    · subst hg
      have hleads : Leads (r.prevOf? g) id (slots g ++ []).reverse := by simpa using h.prev g
      rw [appended, if_pos rfl]
      refine hleads.insert_reverse hnodup ?_ ?_ fun o ho hol => ?_
      · rw [List.head?_nil, pushBack_eq h present, prevOf?_modifyNode_of_ne (by simp),
          prevOf?_setNext, prevOf?_setPrev_self hstart]
        rfl
      · rw [prevOf?, hn, Option.map_some, hnprev]
        rfl
      · exact hprev g o (fun a ha => by simpa using ho a ha) fun e => absurd e.symm hol
    · rw [appended, if_neg hg]
      apply (h.prev g).congr
      intro o ho
      exact hprev g o (fun a ha => List.mem_reverse.1 (ho a ha)) fun _ => Ne.symm hg
  · by_cases hji : j = i
    · subst hji
      have hgf : g = f := by
        by_contra hgf
        rw [appended, if_neg hgf] at hj
        exact hi g hj
      rw [hn, Option.map_some, hnfreq, hgf]
    · have hold : j ∈ slots g := by
        unfold appended at hj
        split at hj
        · rename_i hgf
          simpa [hgf, hji] using hj
        · exact hj
      rw [pushBack_eq h present, modifyNode, Slab.get?_modify, if_neg (Ne.symm hji),
        (alike_setNext linkless_freq ..).view_eq, (alike_setPrev linkless_freq ..).view_eq]
      exact h.freq_eq g j hold

end Filed

end BoundedCache.Lfu.Ranking
