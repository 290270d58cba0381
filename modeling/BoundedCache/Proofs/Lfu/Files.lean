import BoundedCache.Proofs.Lfu.Chain
import BoundedCache.Proofs.Slots

/-! # The slots of each frequency are filed in a doubly linked list -/
namespace BoundedCache.Lfu

/-- What places a node in the ranking. -/
def Node.links {K V : Type} (node : Node K V) : Nat × Option Nat × Option Nat :=
  (node.freq, node.prev?, node.next?)

namespace Ranking
open Links
variable {K V : Type} {r r' : Ranking K V} {f g i : Nat} {xs ys : List Nat}
  {slots : Nat → List Nat} {node : Node K V}

/-- Where a slot leads on in its bucket, and where the bucket starts for none. -/
def nextOf? (r : Ranking K V) (f : Nat) : Option Nat → Option (Option Nat)
  | some i => (r.nodes.get? i).map Node.next?
  | none => some ((r.buckets.get? f).bind Bucket.head?)

/-- Where a slot leads back in its bucket, and where the bucket ends for none. -/
def prevOf? (r : Ranking K V) (f : Nat) : Option Nat → Option (Option Nat)
  | some i => (r.nodes.get? i).map Node.prev?
  | none => some ((r.buckets.get? f).bind Bucket.tail?)

/-! ## What each write changes -/

/-- A slot with a node, or the bucket itself for none. -/
def Held (r : Ranking K V) (f : Nat) : Option Nat → Prop
  | some i => (r.nodes.get? i).isSome
  | none => (r.buckets.get? f).isSome

theorem nextOf?_setNext_self {o : Option Nat} (ho : Held r f o) (p : Option Nat) :
    (r.setNext f o p).nextOf? f o = some p := by
  cases o with
  | none =>
    obtain ⟨b, hb⟩ := Option.isSome_iff_exists.1 ho
    simp [setNext, nextOf?, modifyBucket, Dict.get?_modify, hb]
  | some i =>
    obtain ⟨node, hnode⟩ := Option.isSome_iff_exists.1 ho
    simp [setNext, nextOf?, modifyNode, Slab.get?_modify, hnode]

theorem nextOf?_setNext_of_ne {o q : Option Nat} (h : o = q → o = none ∧ f ≠ g) (p : Option Nat) :
    (r.setNext f o p).nextOf? g q = r.nextOf? g q := by
  cases o with
  | none =>
    cases q with
    | none => simp [setNext, nextOf?, modifyBucket, Dict.get?_modify, (h rfl).2]
    | some j => rfl
  | some i =>
    cases q with
    | none => rfl
    | some j =>
      have hij : i ≠ j := fun e => by simpa using (h (congrArg some e)).1
      simp [setNext, nextOf?, modifyNode, Slab.get?_modify, hij]

theorem prevOf?_setPrev_self {o : Option Nat} (ho : Held r f o) (p : Option Nat) :
    (r.setPrev f o p).prevOf? f o = some p := by
  cases o with
  | none =>
    obtain ⟨b, hb⟩ := Option.isSome_iff_exists.1 ho
    simp [setPrev, prevOf?, modifyBucket, Dict.get?_modify, hb]
  | some i =>
    obtain ⟨node, hnode⟩ := Option.isSome_iff_exists.1 ho
    simp [setPrev, prevOf?, modifyNode, Slab.get?_modify, hnode]

theorem prevOf?_setPrev_of_ne {o q : Option Nat} (h : o = q → o = none ∧ f ≠ g) (p : Option Nat) :
    (r.setPrev f o p).prevOf? g q = r.prevOf? g q := by
  cases o with
  | none =>
    cases q with
    | none => simp [setPrev, prevOf?, modifyBucket, Dict.get?_modify, (h rfl).2]
    | some j => rfl
  | some i =>
    cases q with
    | none => rfl
    | some j =>
      have hij : i ≠ j := fun e => by simpa using (h (congrArg some e)).1
      simp [setPrev, prevOf?, modifyNode, Slab.get?_modify, hij]

theorem nextOf?_setPrev (r : Ranking K V) (f g : Nat) (o p q : Option Nat) :
    (r.setPrev f o p).nextOf? g q = r.nextOf? g q := by
  cases o with
  | none =>
    cases q with
    | none =>
      simp only [setPrev, nextOf?, modifyBucket, Dict.get?_modify]
      split
      · cases r.buckets.get? g <;> rfl
      · rfl
    | some j => rfl
  | some i =>
    cases q with
    | none => rfl
    | some j =>
      simp only [setPrev, nextOf?, modifyNode, Slab.get?_modify]
      split <;> simp [Function.comp_def]

theorem prevOf?_setNext (r : Ranking K V) (f g : Nat) (o p q : Option Nat) :
    (r.setNext f o p).prevOf? g q = r.prevOf? g q := by
  cases o with
  | none =>
    cases q with
    | none =>
      simp only [setNext, prevOf?, modifyBucket, Dict.get?_modify]
      split
      · cases r.buckets.get? g <;> rfl
      · rfl
    | some j => rfl
  | some i =>
    cases q with
    | none => rfl
    | some j =>
      simp only [setNext, prevOf?, modifyNode, Slab.get?_modify]
      split <;> simp [Function.comp_def]

theorem nextOf?_modifyNode_of_ne {o : Option Nat} (ho : o ≠ some i) (u : Node K V → Node K V) :
    (r.modifyNode i u).nextOf? g o = r.nextOf? g o := by
  cases o with
  | none => rfl
  | some j =>
    have hij : i ≠ j := fun e => ho (congrArg some e.symm)
    simp [nextOf?, modifyNode, Slab.get?_modify, hij]

theorem prevOf?_modifyNode_of_ne {o : Option Nat} (ho : o ≠ some i) (u : Node K V → Node K V) :
    (r.modifyNode i u).prevOf? g o = r.prevOf? g o := by
  cases o with
  | none => rfl
  | some j =>
    have hij : i ≠ j := fun e => ho (congrArg some e.symm)
    simp [prevOf?, modifyNode, Slab.get?_modify, hij]

/-! ## Contents -/

/-- Whatever a node shows besides its links, the writes of links keep. -/
def Linkless {β : Type} (view : Node K V → β) : Prop :=
  ∀ node prev? next?, view { node with prev?, next? } = view node

theorem linkless_entry : Linkless (Node.entry : Node K V → Entry K V) := fun _ _ _ => rfl

theorem linkless_freq : Linkless (Node.freq : Node K V → Nat) := fun _ _ _ => rfl

theorem alike_setNext {β : Type} {view : Node K V → β} (hview : Linkless view) (r : Ranking K V)
    (f : Nat) (o p : Option Nat) : Slab.Alike view r.nodes (r.setNext f o p).nodes := by
  cases o with
  | none => exact Slab.Alike.refl ..
  | some i => exact Slab.Alike.modify _ i fun node => hview node node.prev? p

theorem alike_setPrev {β : Type} {view : Node K V → β} (hview : Linkless view) (r : Ranking K V)
    (f : Nat) (o p : Option Nat) : Slab.Alike view r.nodes (r.setPrev f o p).nodes := by
  cases o with
  | none => exact Slab.Alike.refl ..
  | some i => exact Slab.Alike.modify _ i fun node => hview node p node.next?

theorem held_setNext {o : Option Nat} (ho : Held r g o) (f : Nat) (q p : Option Nat) :
    Held (r.setNext f q p) g o := by
  cases o with
  | none => rwa [Held, (SameChain.setNext r f q p).isSome_get?]
  | some i => rwa [Held, (alike_setNext linkless_freq r f q p).isSome_get?]

theorem held_setPrev {o : Option Nat} (ho : Held r g o) (f : Nat) (q p : Option Nat) :
    Held (r.setPrev f q p) g o := by
  cases o with
  | none => rwa [Held, (SameChain.setPrev r f q p).isSome_get?]
  | some i => rwa [Held, (alike_setPrev linkless_freq r f q p).isSome_get?]

/-! ## The files -/

/-- For every frequency its bucket and the nodes lead through its slots, there and back. -/
structure Filed (r : Ranking K V) (slots : Nat → List Nat) : Prop where
  nodup : ∀ f, (slots f).Nodup
  next : ∀ f, Leads (nextOf? r f) id (slots f)
  prev : ∀ f, Leads (prevOf? r f) id (slots f).reverse
  freq_eq : ∀ f, ∀ i ∈ slots f, (r.nodes.get? i).map Node.freq = some f

namespace Filed

theorem unique (h : Filed r slots) (hf : i ∈ slots f) (hg : i ∈ slots g) : f = g :=
  Option.some.inj ((h.freq_eq f i hf).symm.trans (h.freq_eq g i hg))

theorem isSome_get? (h : Filed r slots) (hi : i ∈ slots f) : (r.nodes.get? i).isSome := by
  rw [← Option.isSome_map (f := Node.freq), h.freq_eq f i hi]
  rfl

theorem head?_eq (h : Filed r slots) (f : Nat) :
    (r.buckets.get? f).bind Bucket.head? = (slots f).head? :=
  Option.some.inj (h.next f).start

theorem tail?_eq (h : Filed r slots) (f : Nat) :
    (r.buckets.get? f).bind Bucket.tail? = (slots f).getLast? := by
  simpa [prevOf?] using (h.prev f).start

theorem isSome_bucket (h : Filed r slots) (hf : slots f ≠ []) : (r.buckets.get? f).isSome := by
  cases hb : r.buckets.get? f with
  | some b => rfl
  | none =>
    have hhead := h.head?_eq f
    rw [hb, Option.bind_none, eq_comm, List.head?_eq_none_iff] at hhead
    exact absurd hhead hf

/-- Through the buckets in any order every slot is met once. -/
theorem nodup_flatMap_keys (h : Filed r slots) : (r.buckets.keys.flatMap slots).Nodup := by
  rw [List.nodup_flatMap]
  refine ⟨fun f _ => h.nodup f, r.buckets.nodup.imp fun hne => ?_⟩
  exact fun i hi hj => hne (h.unique hi hj)

theorem mem_flatMap_keys (h : Filed r slots) (i : Nat) :
    i ∈ r.buckets.keys.flatMap slots ↔ ∃ f, i ∈ slots f := by
  rw [List.mem_flatMap]
  refine exists_congr fun f => and_iff_right_of_imp fun hi => ?_
  exact (Dict.mem_keys_iff ..).2 (h.isSome_bucket (List.ne_nil_of_mem hi))

theorem held (h : Filed r slots) (hf : slots f ≠ []) {o : Option Nat}
    (ho : ∀ a ∈ o, a ∈ slots f) : Held r f o := by
  cases o with
  | none => exact h.isSome_bucket hf
  | some i => exact h.isSome_get? (ho i rfl)

/-- The links of a node are its neighbours in the list. -/
theorem node_eq (h : Filed r slots) (hf : slots f = xs ++ i :: ys) (hi : r.nodes.get? i = some node) :
    node.freq = f ∧ node.next? = ys.head? ∧ node.prev? = xs.getLast? := by
  have hmem : i ∈ slots f := by simp [hf]
  have hnodup := h.nodup f
  rw [hf] at hnodup
  have hfreq := h.freq_eq f i hmem
  have hnext := h.next f (some i) (by simpa using hmem)
  have hprev := h.prev f (some i) (by simpa using hmem)
  rw [hi] at hfreq
  rw [nextOf?, hi, hf, after_middle hnodup] at hnext
  rw [prevOf?, hi, hf, after_reverse_middle hnodup] at hprev
  exact ⟨Option.some.inj hfreq, Option.some.inj hnext, Option.some.inj hprev⟩

/-- Files stay as they are while no link, no frequency and no end of a bucket changes. -/
theorem congr (h : Filed r slots)
    (links : ∀ f, ∀ i ∈ slots f,
      (r'.nodes.get? i).map Node.links = (r.nodes.get? i).map Node.links)
    (head?_eq : ∀ f, (r'.buckets.get? f).bind Bucket.head? = (r.buckets.get? f).bind Bucket.head?)
    (tail?_eq : ∀ f, (r'.buckets.get? f).bind Bucket.tail? = (r.buckets.get? f).bind Bucket.tail?) :
    Filed r' slots := by
  have hfield : ∀ {γ : Type} (proj : Nat × Option Nat × Option Nat → γ), ∀ f, ∀ i ∈ slots f,
      (r'.nodes.get? i).map (fun n => proj n.links) =
        (r.nodes.get? i).map (fun n => proj n.links) := by
    intro γ proj f i hi
    have hi := congrArg (Option.map proj) (links f i hi)
    rwa [Option.map_map, Option.map_map] at hi
  refine ⟨h.nodup, fun f => (h.next f).congr fun o ho => ?_,
    fun f => (h.prev f).congr fun o ho => ?_, fun f i hi => ?_⟩
  · cases o with
    | none => simp only [nextOf?, head?_eq]
    | some i => exact hfield (fun l => l.2.2) f i (ho i rfl)
  · cases o with
    | none => simp only [prevOf?, tail?_eq]
    | some i => exact hfield (fun l => l.2.1) f i (List.mem_reverse.1 (ho i rfl))
  · exact (hfield (fun l => l.1) f i hi).trans (h.freq_eq f i hi)

end Filed

theorem filed_empty : Filed (empty : Ranking K V) fun _ => [] where
  nodup _ := List.nodup_nil
  next _ o ho := by
    cases o with
    | none => rfl
    | some i => exact absurd (ho i rfl) List.not_mem_nil
  prev _ o ho := by
    cases o with
    | none => rfl
    | some i => exact absurd (ho i rfl) List.not_mem_nil
  freq_eq _ _ hi := absurd hi List.not_mem_nil

end Ranking
end BoundedCache.Lfu
