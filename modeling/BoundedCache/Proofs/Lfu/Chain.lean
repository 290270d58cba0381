import BoundedCache.Lfu.Ranking
import BoundedCache.Proofs.Links
import BoundedCache.Proofs.Tracking

/-! # The buckets of a frequency ranking form an ascending chain -/
namespace BoundedCache.Lfu.Ranking
open Links
variable {K V : Type} {r r' : Ranking K V} {f : Nat} {fs xs ys : List Nat}

/-! ## What each write changes -/

theorem get?_setHigher (r : Ranking K V) (o p : Option Nat) (g : Nat) :
    (r.setHigher o p).buckets.get? g =
      if o = some g then (r.buckets.get? g).map fun b => { b with higher? := p }
      else r.buckets.get? g := by
  cases o with
  | none => rfl
  | some f => simp [setHigher, modifyBucket, Dict.get?_modify]

theorem get?_setLower (r : Ranking K V) (o p : Option Nat) (g : Nat) :
    (r.setLower o p).buckets.get? g =
      if o = some g then (r.buckets.get? g).map fun b => { b with lower? := p }
      else r.buckets.get? g := by
  cases o with
  | none => rfl
  | some f => simp [setLower, modifyBucket, Dict.get?_modify]

theorem minFreq_setHigher (r : Ranking K V) (o p : Option Nat) :
    (r.setHigher o p).minFreq = if o = none then p.getD 0 else r.minFreq := by
  cases o <;> rfl

@[simp] theorem minFreq_setLower (r : Ranking K V) (o p : Option Nat) :
    (r.setLower o p).minFreq = r.minFreq := by
  cases o <;> rfl

@[simp] theorem nodes_setHigher (r : Ranking K V) (o p : Option Nat) :
    (r.setHigher o p).nodes = r.nodes := by
  cases o <;> rfl

@[simp] theorem nodes_setLower (r : Ranking K V) (o p : Option Nat) :
    (r.setLower o p).nodes = r.nodes := by
  cases o <;> rfl

/-- Where the chain leads from a frequency, from its start for none. -/
def higherOf? (r : Ranking K V) : Option Nat → Option (Option Nat)
  | some f => (r.buckets.get? f).map Bucket.higher?
  | none => some r.lowest?

/-- Where the chain leads back from a frequency, from the given end for none. -/
def lowerOf? (r : Ranking K V) (top? : Option Nat) : Option Nat → Option (Option Nat)
  | some f => (r.buckets.get? f).map Bucket.lower?
  | none => some top?

/-- The chain runs through exactly the frequencies with a bucket, upwards and back. -/
structure Chained (r : Ranking K V) (fs : List Nat) : Prop where
  sorted : fs.Pairwise (· < ·)
  mem_iff : ∀ f, f ∈ fs ↔ (r.buckets.get? f).isSome
  minFreq_eq : r.minFreq = fs.head?.getD 0
  higher : Leads (higherOf? r) id fs
  lower : Leads (lowerOf? r fs.getLast?) id fs.reverse

theorem lowest?_eq (mem_iff : ∀ f, f ∈ fs ↔ (r.buckets.get? f).isSome)
    (minFreq_eq : r.minFreq = fs.head?.getD 0) : r.lowest? = fs.head? := by
  have hempty : r.buckets.isEmpty = true ↔ fs = [] := by
    rw [Dict.isEmpty_iff, List.eq_nil_iff_forall_not_mem]
    exact forall_congr' fun f => by rw [mem_iff]; simp
  rw [lowest?]
  cases fs with
  | nil => rw [if_pos (hempty.2 rfl)]; rfl
  | cons f fs =>
    rw [if_neg fun h => List.cons_ne_nil _ _ (hempty.1 h), minFreq_eq]
    rfl

namespace Chained

theorem nodup (h : Chained r fs) : fs.Nodup := h.sorted.imp Nat.ne_of_lt

theorem lowest?_eq (h : Chained r fs) : r.lowest? = fs.head? :=
  Ranking.lowest?_eq h.mem_iff h.minFreq_eq

theorem get?_eq_none (h : Chained r fs) (hf : f ∉ fs) : r.buckets.get? f = none := by
  rw [h.mem_iff] at hf
  simpa using hf

end Chained

theorem chained_empty : Chained (empty : Ranking K V) [] where
  sorted := List.Pairwise.nil
  mem_iff f := by simp [empty]
  minFreq_eq := rfl
  higher o ho := by
    cases o with
    | none => rfl
    | some f => exact absurd (ho f rfl) List.not_mem_nil
  lower o ho := by
    cases o with
    | none => rfl
    | some f => exact absurd (ho f rfl) List.not_mem_nil

/-- Writes that leave the chain of the buckets alone. -/
structure SameChain (r r' : Ranking K V) : Prop where
  higher : ∀ f, (r'.buckets.get? f).map Bucket.higher? = (r.buckets.get? f).map Bucket.higher?
  lower : ∀ f, (r'.buckets.get? f).map Bucket.lower? = (r.buckets.get? f).map Bucket.lower?
  minFreq : r'.minFreq = r.minFreq

namespace SameChain
variable {r'' : Ranking K V}

theorem refl (r : Ranking K V) : SameChain r r := ⟨fun _ => rfl, fun _ => rfl, rfl⟩

theorem trans (h : SameChain r r') (h' : SameChain r' r'') : SameChain r r'' where
  higher f := (h'.higher f).trans (h.higher f)
  lower f := (h'.lower f).trans (h.lower f)
  minFreq := h'.minFreq.trans h.minFreq

theorem isSome_get? (h : SameChain r r') (f : Nat) :
    (r'.buckets.get? f).isSome = (r.buckets.get? f).isSome := by
  have hf := congrArg Option.isSome (h.higher f)
  rwa [Option.isSome_map, Option.isSome_map] at hf

theorem modifyNode (r : Ranking K V) (i : Nat) (g : Node K V → Node K V) :
    SameChain r (r.modifyNode i g) := ⟨fun _ => rfl, fun _ => rfl, rfl⟩

theorem modifyBucket (r : Ranking K V) (f : Nat) {g : Bucket → Bucket}
    (hg : ∀ b, (g b).higher? = b.higher? ∧ (g b).lower? = b.lower?) :
    SameChain r (r.modifyBucket f g) where
  higher j := by
    rw [Ranking.modifyBucket, Dict.get?_modify]
    split <;> simp [Function.comp_def, hg]
  lower j := by
    rw [Ranking.modifyBucket, Dict.get?_modify]
    split <;> simp [Function.comp_def, hg]
  minFreq := rfl

theorem setNext (r : Ranking K V) (f : Nat) (o p : Option Nat) :
    SameChain r (r.setNext f o p) := by
  cases o with
  | none => exact modifyBucket r f fun _ => ⟨rfl, rfl⟩
  | some i => exact modifyNode ..

theorem setPrev (r : Ranking K V) (f : Nat) (o p : Option Nat) :
    SameChain r (r.setPrev f o p) := by
  cases o with
  | none => exact modifyBucket r f fun _ => ⟨rfl, rfl⟩
  | some i => exact modifyNode ..

end SameChain

theorem Chained.congr (h : Chained r fs) (same : SameChain r r') : Chained r' fs := by
  have mem_iff : ∀ f, f ∈ fs ↔ (r'.buckets.get? f).isSome := fun f => by
    rw [same.isSome_get?, h.mem_iff]
  have minFreq_eq := same.minFreq.trans h.minFreq_eq
  refine ⟨h.sorted, mem_iff, minFreq_eq, h.higher.congr fun o _ => ?_, h.lower.congr fun o _ => ?_⟩
  · cases o with
    | none => simp only [higherOf?, h.lowest?_eq, Ranking.lowest?_eq mem_iff minFreq_eq]
    | some f => exact same.higher f
  · cases o with
    | none => rfl
    | some f => exact same.lower f

end BoundedCache.Lfu.Ranking
