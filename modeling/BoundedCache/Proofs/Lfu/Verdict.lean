import BoundedCache.Proofs.Lfu.Check

/-! # What the check of a frequency ranking tells, whatever its links are

Links may dangle, run in a circle or lead from one bucket into another. The walks of the check come to
an end all the same, and only a ranking that is in order passes.
-/
namespace BoundedCache.Lfu
open Ranking Links
variable {K V : Type} {r : Ranking K V} {f n room : Nat} {fs : List Nat} {lower? : Option Nat}
  {bucket : Bucket}

/-- What comes before the rest of a walk is the step that it starts after, or the last of its own. -/
theorem getLast?_cons_or (i : Nat) (is : List Nat) (last? : Option Nat) :
    (i :: is).getLast?.or last? = is.getLast?.or (some i) := by
  rw [List.getLast?_cons]
  cases is.getLast? <;> rfl

/-! ## What the chain leads through -/

/-- From a frequency on the chain leads upwards through others to its end, and each of them leads back
to the one before it. -/
structure Climbed (r : Ranking K V) (lower? f? : Option Nat) (fs : List Nat) : Prop where
  start : f? = fs.head?
  above : ∀ l ∈ lower?, ∀ f ∈ fs, l < f
  sorted : fs.Pairwise (· < ·)
  bucket : ∀ xs f ys, fs = xs ++ f :: ys → ∃ bucket, r.buckets.get? f = some bucket ∧
    bucket.lower? = xs.getLast?.or lower? ∧ bucket.higher? = ys.head?

theorem climbed_nil (r : Ranking K V) (lower? : Option Nat) : Climbed r lower? none [] where
  start := rfl
  above _ _ _ hf := absurd hf List.not_mem_nil
  sorted := List.Pairwise.nil
  bucket xs f ys h := by simp at h

theorem Climbed.cons (h : Climbed r (some f) bucket.higher? fs)
    (hbucket : r.buckets.get? f = some bucket) (hlower : bucket.lower? = lower?)
    (ascending : ∀ l ∈ lower?, l < f) : Climbed r lower? (some f) (f :: fs) where
  start := rfl
  above l hl := List.forall_mem_cons.2
    ⟨ascending l hl, fun g hg => Nat.lt_trans (ascending l hl) (h.above f rfl g hg)⟩
  sorted := List.pairwise_cons.2 ⟨h.above f rfl, h.sorted⟩
  bucket := by
    refine forall_splits_cons.2 ⟨⟨bucket, hbucket, hlower, h.start⟩, fun xs g ys hsplit => ?_⟩
    rw [getLast?_cons_or]
    exact h.bucket xs g ys hsplit

theorem chainFrom_some_eq_ok_iff :
    chainFrom r room lower? (some f) = .ok n ↔
      ∃ bucket, r.buckets.get? f = some bucket ∧ bucket.lower? = lower? ∧
        (∀ l ∈ lower?, l < f) ∧
        ∃ room' n', room = room' + 1 ∧ chainFrom r room' (some f) bucket.higher? = .ok n' ∧
          n = n' + 1 := by
  rw [chainFrom]
  cases r.buckets.get? f with
  | none => simp
  | some bucket =>
    simp only [require_bind_eq_ok_iff]
    cases room with
    | zero => simp
    | succ room =>
      simp only [bind_eq_ok_iff, pure, Except.pure, Except.ok.injEq, Option.some.injEq,
        Nat.succ.injEq, exists_and_left, exists_eq_left', eq_comm (a := n)]

theorem chainFrom_none (r : Ranking K V) (room : Nat) (lower? : Option Nat) :
    chainFrom r room lower? none = .ok 0 := by
  cases room <;> rfl

theorem exists_climbed {f? : Option Nat} (h : chainFrom r room lower? f? = .ok n) :
    ∃ fs, fs.length = n ∧ Climbed r lower? f? fs := by
  induction room using Nat.strongRecOn generalizing lower? f? n with
  | _ room ih =>
    cases f? with
    | none =>
      cases (chainFrom_none r room lower?).symm.trans h
      exact ⟨[], rfl, climbed_nil ..⟩
    | some f =>
      obtain ⟨bucket, hbucket, hlower, hascending, room', n', rfl, hrest, rfl⟩ :=
        chainFrom_some_eq_ok_iff.1 h
      obtain ⟨fs, rfl, hclimbed⟩ := ih room' (Nat.lt_succ_self room') hrest
      exact ⟨f :: fs, rfl, hclimbed.cons hbucket hlower hascending⟩

namespace Climbed

theorem isSome_get? {f? : Option Nat} (h : Climbed r lower? f? fs) (hf : f ∈ fs) :
    (r.buckets.get? f).isSome := by
  obtain ⟨xs, ys, rfl⟩ := List.append_of_mem hf
  obtain ⟨bucket, hbucket, -⟩ := h.bucket xs f ys rfl
  rw [hbucket]
  rfl

theorem higher (h : Climbed r none r.lowest? fs) : Leads (higherOf? r) id fs := by
  refine leads_of_splits (h.sorted.imp Nat.ne_of_lt) (congrArg some h.start) fun xs f ys hsplit => ?_
  obtain ⟨bucket, hbucket, -, hhigher⟩ := h.bucket xs f ys hsplit
  rw [higherOf?, hbucket, Option.map_some, hhigher]
  rfl

theorem lower (h : Climbed r none r.lowest? fs) : Leads (lowerOf? r fs.getLast?) id fs.reverse := by
  refine leads_reverse_of_splits (h.sorted.imp Nat.ne_of_lt) rfl fun xs f ys hsplit => ?_
  obtain ⟨bucket, hbucket, hlower, -⟩ := h.bucket xs f ys hsplit
  rw [lowerOf?, hbucket, Option.map_some, hlower, Option.or_none]
  rfl

end Climbed

variable [DecidableEq K] {e : Lfu K V} {i : Nat} {seen new is all : List Nat}
  {last? i? next? final? : Option Nat} {slots : Nat → List Nat}

/-! ## The parts of the check -/

/-- Looks at the slot of a bucket that a walk has come to, and tells which one follows. -/
def inspect (e : Lfu K V) (f : Nat) (seen : List Nat) (last? : Option Nat) (i : Nat) :
    Except Fault (Option Nat) := do
  require (i ∉ seen) (.linkedTwice i)
  let some node := e.ranking.nodes.get? i | .error (.danglingLink i)
  require (node.freq = f) (.wrongFrequency i node.freq f)
  require (node.prev? = last?) (.brokenBackLink i)
  require (e.table.get? node.entry.key = some i) (.tableDisagrees i)
  return node.next?

/-- Compares the slots of all buckets with the rest of the engine. -/
def conclude (e : Lfu K V) (walked : Except Fault (List Nat)) : Except Fault Unit := do
  let buckets := e.ranking.buckets
  let slots ← walked
  require (slots.length = e.size) (.linkedCount slots.length e.size)
  require (e.table.size = e.size) (.tableCount e.table.size e.size)
  require (0 < e.size → buckets.keys.min? = some e.ranking.minFreq)
    (.lowestMismatch e.ranking.minFreq buckets.keys.min?)
  let count ← chainFrom e.ranking buckets.size none e.ranking.lowest?
  require (count = buckets.size) (.chainCount count buckets.size)
  require (e.size ≤ e.capacity) (.overCapacity e.size e.capacity)

theorem check_eq_conclude (e : Lfu K V) :
    e.check = e.conclude (e.bucketSlots [] e.ranking.buckets.entries) := rfl

theorem inspect_eq_ok_iff :
    e.inspect f seen last? i = .ok next? ↔
      i ∉ seen ∧ ∃ node, e.ranking.nodes.get? i = some node ∧ node.freq = f ∧
        node.prev? = last? ∧ e.table.get? node.entry.key = some i ∧ node.next? = next? := by
  rw [inspect, require_bind_eq_ok_iff]
  refine and_congr_right fun _ => ?_
  cases e.ranking.nodes.get? i with
  | none => simp
  | some node => simp [require_bind_eq_ok_iff, pure, Except.pure]

theorem bucketFrom_none (e : Lfu K V) (f fuel : Nat) (seen : List Nat) (last? : Option Nat) :
    e.bucketFrom f fuel seen last? none = .ok ([], last?) := by
  cases fuel <;> rfl

theorem bucketFrom_succ (e : Lfu K V) (f fuel : Nat) (seen : List Nat) (last? : Option Nat) (i : Nat) :
    e.bucketFrom f (fuel + 1) seen last? (some i) =
      e.inspect f seen last? i >>= fun next? =>
        (e.bucketFrom f fuel (i :: seen) (some i) next?).map fun walked =>
          (i :: walked.1, walked.2) := by
  rw [bucketFrom, inspect]
  unfold require
  split
  · cases e.ranking.nodes.get? i with
    | none => rfl
    | some node =>
      simp only [ok_bind]
      split
      · split
        · split <;> rfl
        · rfl
      · rfl
  · rfl

/-! ## The walks come to an end -/

/-- The walk through a bucket with no limit to its length, if it ends. -/
inductive Roams (e : Lfu K V) (f : Nat) :
    List Nat → Option Nat → Option Nat → Except Fault (List Nat × Option Nat) → Prop
  | stop (seen : List Nat) (last? : Option Nat) : Roams e f seen last? none (.ok ([], last?))
  | fault {seen : List Nat} {last? : Option Nat} {i : Nat} {fault : Fault}
      (found : e.inspect f seen last? i = .error fault) : Roams e f seen last? (some i) (.error fault)
  | step {seen : List Nat} {last? next? : Option Nat} {i : Nat}
      {walked : Except Fault (List Nat × Option Nat)} (found : e.inspect f seen last? i = .ok next?)
      (rest : Roams e f (i :: seen) (some i) next? walked) :
      Roams e f seen last? (some i) (walked.map fun walked => (i :: walked.1, walked.2))

/-- The walks through all buckets in the order given, after the slots seen before, if they end. -/
inductive RoamsAll (e : Lfu K V) :
    List Nat → List (Nat × Bucket) → Except Fault (List Nat) → Prop
  | nil (seen : List Nat) : RoamsAll e seen [] (.ok seen)
  | empty {seen : List Nat} {f : Nat} {bucket : Bucket} {rest : List (Nat × Bucket)}
      (head : bucket.head? = none) : RoamsAll e seen ((f, bucket) :: rest) (.error (.emptyBucket f))
  | fault {seen : List Nat} {f : Nat} {bucket : Bucket} {rest : List (Nat × Bucket)} {fault : Fault}
      (head : bucket.head? ≠ none) (walk : Roams e f seen none bucket.head? (.error fault)) :
      RoamsAll e seen ((f, bucket) :: rest) (.error fault)
  | mismatch {seen slots : List Nat} {f : Nat} {bucket : Bucket} {rest : List (Nat × Bucket)}
      {last? : Option Nat} (head : bucket.head? ≠ none)
      (walk : Roams e f seen none bucket.head? (.ok (slots, last?))) (tail : bucket.tail? ≠ last?) :
      RoamsAll e seen ((f, bucket) :: rest) (.error (.tailMismatch f))
  | cons {seen slots : List Nat} {f : Nat} {bucket : Bucket} {rest : List (Nat × Bucket)}
      {walked : Except Fault (List Nat)} (head : bucket.head? ≠ none)
      (walk : Roams e f seen none bucket.head? (.ok (slots, bucket.tail?)))
      (more : RoamsAll e (seen ++ slots) rest walked) :
      RoamsAll e seen ((f, bucket) :: rest) walked

/-- The check with walks that have no limit, if it ends. -/
def Concludes (e : Lfu K V) (verdict : Except Fault Unit) : Prop :=
  ∃ walked, RoamsAll e [] e.ranking.buckets.entries walked ∧ verdict = e.conclude walked

/-- Every step of a walk meets one more occupied slot, so it takes no more steps than there are
slots. -/
theorem roams_iff (nodup : new.Nodup) (sub : new ⊆ seen)
    (occupied : ∀ j ∈ new, (e.ranking.nodes.get? j).isSome) {fuel : Nat}
    (hfuel : e.ranking.nodes.slotCount < fuel + new.length)
    {walked : Except Fault (List Nat × Option Nat)} :
    Roams e f seen last? i? walked ↔ walked = e.bucketFrom f fuel seen last? i? := by
  induction fuel generalizing new seen last? i? walked with
  | zero =>
    -- The walk has not come this far: it has met more slots than there are.
    have hle := Slab.length_le_slotCount nodup occupied
    omega
  | succ fuel ih =>
    have hrest : ∀ i next? walked, e.inspect f seen last? i = .ok next? →
        (Roams e f (i :: seen) (some i) next? walked ↔
          walked = e.bucketFrom f fuel (i :: seen) (some i) next?) := by
      intro i next? walked hfound
      obtain ⟨hseen, node, hnode, -⟩ := inspect_eq_ok_iff.1 hfound
      have hnodup : (i :: new).Nodup := List.nodup_cons.2 ⟨fun hmem => hseen (sub hmem), nodup⟩
      have hoccupied : ∀ j ∈ i :: new, (e.ranking.nodes.get? j).isSome :=
        List.forall_mem_cons.2 ⟨by rw [hnode]; rfl, occupied⟩
      exact ih hnodup (List.cons_subset_cons i sub) hoccupied (by rw [List.length_cons]; omega)
    constructor
    · intro h
      cases h with
      | stop => rw [bucketFrom_none]
      | fault found =>
        rw [bucketFrom_succ, found]
        rfl
      | step found rest => rw [bucketFrom_succ, found, ok_bind, (hrest _ _ _ found).1 rest]
    · rintro rfl
      cases i? with
      | none =>
        rw [bucketFrom_none]
        exact .stop seen last?
      | some i =>
        rw [bucketFrom_succ]
        cases found : e.inspect f seen last? i with
        | error fault => exact .fault found
        | ok next? => exact .step found ((hrest i next? _ found).2 rfl)

theorem roamsAll_iff (e : Lfu K V) (entries : List (Nat × Bucket))
    {walked : Except Fault (List Nat)} :
    RoamsAll e seen entries walked ↔ walked = e.bucketSlots seen entries := by
  induction entries generalizing seen walked with
  | nil =>
    constructor
    · rintro ⟨⟩
      rfl
    · rintro rfl
      exact .nil seen
  | cons entry rest ih =>
    obtain ⟨f, bucket⟩ := entry
    have hroams : ∀ outcome, Roams e f seen none bucket.head? outcome ↔
        outcome = e.bucketFrom f (e.ranking.nodes.slotCount + 1) seen none bucket.head? := fun _ =>
      roams_iff List.nodup_nil (List.nil_subset _) (fun _ h => absurd h List.not_mem_nil)
        (Nat.lt_succ_self _)
    constructor
    · intro h
      rw [bucketSlots]
      cases h with
      | empty head => rw [require_bind_of_not (not_not.2 head)]
      | fault head walk =>
        rw [require_of head, ok_bind, ← (hroams _).1 walk]
        rfl
      | mismatch head walk tail =>
        rw [require_of head, ok_bind, ← (hroams _).1 walk]
        exact (require_bind_of_not tail ..).symm
      | cons head walk more =>
        rw [require_of head, ok_bind, ← (hroams _).1 walk]
        simp only [ok_bind, require_of trivial]
        exact ih.1 more
    · rintro rfl
      rw [bucketSlots]
      by_cases head : bucket.head? = none
      · rw [require_bind_of_not (not_not.2 head)]
        exact .empty head
      · rw [require_of head, ok_bind]
        cases hwalk : e.bucketFrom f (e.ranking.nodes.slotCount + 1) seen none bucket.head? with
        | error fault => exact .fault head ((hroams _).2 hwalk.symm)
        | ok outcome =>
          obtain ⟨slots, last?⟩ := outcome
          simp only [ok_bind]
          by_cases tail : bucket.tail? = last?
          · subst tail
            rw [require_of rfl, ok_bind]
            exact .cons head ((hroams _).2 hwalk.symm) (ih.2 rfl)
          · rw [require_bind_of_not tail]
            exact .mismatch head ((hroams _).2 hwalk.symm) tail

theorem concludes_iff (e : Lfu K V) (verdict : Except Fault Unit) :
    e.Concludes verdict ↔ verdict = e.check := by
  rw [check_eq_conclude, Concludes]
  simp only [roamsAll_iff, exists_eq_left]

/-! ## What walks without a fault have met -/

/-- From a slot on the links lead through others of the same frequency to the end of a bucket, and
each of these leads back to the one before it and holds an entry that the table knows. -/
structure Walked (e : Lfu K V) (f : Nat) (seen : List Nat) (last? i? : Option Nat) (is : List Nat)
    (final? : Option Nat) : Prop where
  start : i? = is.head?
  final_eq : final? = is.getLast?.or last?
  nodup : is.Nodup
  fresh : ∀ j ∈ is, j ∉ seen
  node : ∀ xs j ys, is = xs ++ j :: ys → ∃ node, e.ranking.nodes.get? j = some node ∧
    node.freq = f ∧ node.prev? = xs.getLast?.or last? ∧ node.next? = ys.head? ∧
    e.table.get? node.entry.key = some j

theorem walked_nil (e : Lfu K V) (f : Nat) (seen : List Nat) (last? : Option Nat) :
    Walked e f seen last? none [] last? where
  start := rfl
  final_eq := rfl
  nodup := List.nodup_nil
  fresh _ hj := absurd hj List.not_mem_nil
  node xs j ys h := by simp at h

theorem Walked.cons (h : Walked e f (i :: seen) (some i) next? is final?)
    (hinspect : e.inspect f seen last? i = .ok next?) :
    Walked e f seen last? (some i) (i :: is) final? where
  start := rfl
  final_eq := by rw [h.final_eq, getLast?_cons_or]
  nodup := List.nodup_cons.2 ⟨fun hmem => h.fresh i hmem List.mem_cons_self, h.nodup⟩
  fresh := by
    obtain ⟨hseen, -⟩ := inspect_eq_ok_iff.1 hinspect
    refine List.forall_mem_cons.2 ⟨hseen, fun j hj hmem => ?_⟩
    exact h.fresh j hj (List.mem_cons_of_mem _ hmem)
  node := by
    obtain ⟨-, node, hnode, hfreq, hprev, hkey, hnext⟩ := inspect_eq_ok_iff.1 hinspect
    refine forall_splits_cons.2 ⟨⟨node, hnode, hfreq, hprev, hnext.trans h.start, hkey⟩, ?_⟩
    intro xs j ys hsplit
    rw [getLast?_cons_or]
    exact h.node xs j ys hsplit

theorem walked_of_bucketFrom {fuel : Nat} (h : e.bucketFrom f fuel seen last? i? = .ok (is, final?)) :
    Walked e f seen last? i? is final? := by
  induction fuel generalizing seen last? i? is with
  | zero =>
    cases i? with
    | none =>
      cases h
      exact walked_nil ..
    | some i => cases h
  | succ fuel ih =>
    cases i? with
    | none =>
      rw [bucketFrom_none] at h
      cases h
      exact walked_nil ..
    | some i =>
      rw [bucketFrom_succ] at h
      obtain ⟨next?, hinspect, hrest⟩ := bind_eq_ok_iff.1 h
      cases hwalk : e.bucketFrom f fuel (i :: seen) (some i) next? with
      | error fault =>
        rw [hwalk] at hrest
        cases hrest
      | ok walked =>
        rw [hwalk] at hrest
        cases hrest
        exact (ih hwalk).cons hinspect

/-- A bucket that is not empty, with the slots from its head to its tail. -/
structure Complete (e : Lfu K V) (f : Nat) (bucket : Bucket) (is : List Nat) : Prop where
  walked : ∃ seen, Walked e f seen none bucket.head? is bucket.tail?
  ne_nil : is ≠ []

theorem exists_slots {entries : List (Nat × Bucket)} (nodup : (entries.map Prod.fst).Nodup)
    (h : e.bucketSlots seen entries = .ok all) :
    ∃ slots : Nat → List Nat, all = seen ++ (entries.map Prod.fst).flatMap slots ∧
      (∀ f bucket, (f, bucket) ∈ entries → Complete e f bucket (slots f)) ∧
      ∀ f, f ∉ entries.map Prod.fst → slots f = [] := by
  induction entries generalizing seen with
  | nil =>
    cases h
    exact ⟨fun _ => [], by simp, by simp, fun _ _ => rfl⟩
  | cons entry rest ih =>
    obtain ⟨f, bucket⟩ := entry
    obtain ⟨hf, hrest⟩ := List.nodup_cons.1 nodup
    rw [bucketSlots, require_bind_eq_ok_iff] at h
    obtain ⟨hhead, h⟩ := h
    obtain ⟨⟨is, last?⟩, hwalk, h⟩ := bind_eq_ok_iff.1 h
    obtain ⟨htail, h⟩ := require_bind_eq_ok_iff.1 h
    obtain ⟨slots, rfl, hslots, hnone⟩ := ih hrest h
    have hwalked := walked_of_bucketFrom hwalk
    have hne : is ≠ [] := by
      rintro rfl
      exact hhead hwalked.start
    have hother : ∀ g ∈ rest.map Prod.fst, Function.update slots f is g = slots g := by
      intro g hg
      rw [Function.update_of_ne]
      rintro rfl
      exact hf hg
    -- No later bucket has this frequency, so the slots of the others stay as they are.
    refine ⟨Function.update slots f is, ?_, ?_, fun g hg => ?_⟩
    · rw [List.map_cons, List.flatMap_cons, Function.update_self, List.flatMap_congr hother,
        List.append_assoc]
    · intro g b hmem
      rcases List.mem_cons.1 hmem with heq | hmem
      · cases heq
        rw [Function.update_self]
        exact ⟨⟨seen, htail ▸ hwalked⟩, hne⟩
      · rw [hother g (List.mem_map_of_mem hmem)]
        exact hslots g b hmem
    · rw [List.map_cons, List.mem_cons, not_or] at hg
      rw [Function.update_of_ne hg.1]
      exact hnone g hg.2

namespace Complete

theorem node (h : Complete e f bucket is) (xs : List Nat) (j : Nat) (ys : List Nat)
    (hsplit : is = xs ++ j :: ys) :
    ∃ node, e.ranking.nodes.get? j = some node ∧ node.freq = f ∧ node.prev? = xs.getLast? ∧
      node.next? = ys.head? ∧ e.table.get? node.entry.key = some j := by
  obtain ⟨seen, hwalked⟩ := h.walked
  simpa only [Option.or_none] using hwalked.node xs j ys hsplit

theorem exists_node (h : Complete e f bucket is) {j : Nat} (hj : j ∈ is) :
    ∃ node, e.ranking.nodes.get? j = some node ∧ node.freq = f ∧
      e.table.get? node.entry.key = some j := by
  obtain ⟨xs, ys, rfl⟩ := List.append_of_mem hj
  obtain ⟨node, hnode, hfreq, -, -, hkey⟩ := h.node xs j ys rfl
  exact ⟨node, hnode, hfreq, hkey⟩

theorem nodup (h : Complete e f bucket is) : is.Nodup := by
  obtain ⟨seen, hwalked⟩ := h.walked
  exact hwalked.nodup

theorem next (h : Complete e f bucket is) (hbucket : e.ranking.buckets.get? f = some bucket) :
    Leads (nextOf? e.ranking f) id is := by
  obtain ⟨seen, hwalked⟩ := h.walked
  refine leads_of_splits h.nodup ?_ fun xs j ys hsplit => ?_
  · rw [nextOf?, hbucket, Option.bind_some, hwalked.start]
    rfl
  · obtain ⟨node, hnode, -, -, hnext, -⟩ := h.node xs j ys hsplit
    rw [nextOf?, hnode, Option.map_some, hnext]
    rfl

theorem prev (h : Complete e f bucket is) (hbucket : e.ranking.buckets.get? f = some bucket) :
    Leads (prevOf? e.ranking f) id is.reverse := by
  obtain ⟨seen, hwalked⟩ := h.walked
  refine leads_reverse_of_splits h.nodup ?_ fun xs j ys hsplit => ?_
  · rw [prevOf?, hbucket, Option.bind_some, hwalked.final_eq, Option.or_none]
    rfl
  · obtain ⟨node, hnode, -, hprev, -⟩ := h.node xs j ys hsplit
    rw [prevOf?, hnode, Option.map_some, hprev]
    rfl

end Complete

/-- Complete buckets file their slots. -/
theorem filed_of_complete
    (complete : ∀ f bucket, e.ranking.buckets.get? f = some bucket → Complete e f bucket (slots f))
    (absent : ∀ f, e.ranking.buckets.get? f = none → slots f = []) : Filed e.ranking slots := by
  have hparts : ∀ f, (slots f).Nodup ∧ Leads (nextOf? e.ranking f) id (slots f) ∧
      Leads (prevOf? e.ranking f) id (slots f).reverse ∧
      ∀ i ∈ slots f, (e.ranking.nodes.get? i).map Node.freq = some f := by
    intro f
    cases hbucket : e.ranking.buckets.get? f with
    | none =>
      rw [absent f hbucket]
      exact ⟨List.nodup_nil, leads_nil (by rw [nextOf?, hbucket]; rfl),
        leads_nil (by rw [prevOf?, hbucket]; rfl), fun i hi => absurd hi List.not_mem_nil⟩
    | some bucket =>
      have hcomplete := complete f bucket hbucket
      refine ⟨hcomplete.nodup, hcomplete.next hbucket, hcomplete.prev hbucket, fun i hi => ?_⟩
      obtain ⟨node, hnode, hfreq, -⟩ := hcomplete.exists_node hi
      rw [hnode, Option.map_some, hfreq]
  exact ⟨fun f => (hparts f).1, fun f => (hparts f).2.1, fun f => (hparts f).2.2.1,
    fun f => (hparts f).2.2.2⟩

/-! ## The verdict -/

/-- A ranking that passes is in order. -/
theorem exists_checked (h : e.check = .ok ())
    (counted : e.ranking.nodes.size = e.ranking.nodes.occupied) :
    ∃ fs slots, Checked e fs slots := by
  rw [check_eq_conclude, conclude] at h
  obtain ⟨_, hslots, h⟩ := bind_eq_ok_iff.1 h
  simp only [require_bind_eq_ok_iff] at h
  obtain ⟨hlength, htable, -, h⟩ := h
  obtain ⟨_, hchain, h⟩ := bind_eq_ok_iff.1 h
  obtain ⟨hcount, hcapacity⟩ := require_bind_eq_ok_iff.1 h
  obtain ⟨slots, rfl, hcomplete, habsent⟩ := exists_slots e.ranking.buckets.nodup hslots
  obtain ⟨fs, rfl, hclimbed⟩ := exists_climbed hchain
  have hbucket : ∀ f bucket, e.ranking.buckets.get? f = some bucket →
      Complete e f bucket (slots f) := fun f bucket hget =>
    hcomplete f bucket ((Dict.get?_eq_some_iff ..).1 hget)
  have hnone : ∀ f, e.ranking.buckets.get? f = none → slots f = [] := fun f hget =>
    habsent f fun hmem => by simpa [hget] using (Dict.mem_keys_iff ..).1 hmem
  have hfiled := filed_of_complete hbucket hnone
  have hmem := Dict.mem_iff_of_length_eq (hclimbed.sorted.imp Nat.ne_of_lt)
    (fun f => hclimbed.isSome_get?) hcount
  have hoccupied : ∀ i ∈ e.ranking.buckets.keys.flatMap slots, (e.ranking.nodes.get? i).isSome := by
    intro i hi
    obtain ⟨f, hf⟩ := (hfiled.mem_flatMap_keys i).1 hi
    exact hfiled.isSome_get? hf
  have hcover := Slab.mem_iff_of_length_eq counted hfiled.nodup_flatMap_keys hoccupied hlength
  refine ⟨fs, slots, hclimbed.sorted, hmem, hclimbed.higher, hclimbed.lower, hfiled,
    fun f hf => ?_, fun i => ?_, fun f i hi => ?_, htable, require_eq_ok_iff.1 hcapacity⟩
  · obtain ⟨bucket, hget⟩ := Option.isSome_iff_exists.1 ((hmem f).1 hf)
    exact (hbucket f bucket hget).ne_nil
  · rw [← hfiled.mem_flatMap_keys, hcover]
  · obtain ⟨bucket, hget⟩ :=
      Option.isSome_iff_exists.1 (hfiled.isSome_bucket (List.ne_nil_of_mem hi))
    obtain ⟨node, hnode, -, hkey⟩ := (hbucket f bucket hget).exists_node hi
    exact ⟨node.entry, by rw [Ranking.entryAt?, hnode, Option.map_some], hkey⟩

/-- The same engine with its buckets in another order. -/
def reorder (e : Lfu K V) (buckets : Dict Nat Bucket) : Lfu K V :=
  { e with ranking := { e.ranking with buckets } }

/-- Nothing that the check looks for depends on the order of the buckets. -/
theorem Checked.reorder (h : Checked e fs slots) {buckets : Dict Nat Bucket}
    (perm : buckets.entries.Perm e.ranking.buckets.entries) :
    Checked (e.reorder buckets) fs slots := by
  have hget : ∀ f, (e.reorder buckets).ranking.buckets.get? f = e.ranking.buckets.get? f :=
    Dict.get?_eq_of_perm perm
  have hlowest : (e.reorder buckets).ranking.lowest? = e.ranking.lowest? := by
    have hempty : (e.reorder buckets).ranking.buckets.isEmpty = e.ranking.buckets.isEmpty := by
      rw [Bool.eq_iff_iff, Dict.isEmpty_iff, Dict.isEmpty_iff]
      simp only [hget]
    rw [lowest?, hempty]
    rfl
  have hmem : ∀ f, f ∈ fs ↔ ((e.reorder buckets).ranking.buckets.get? f).isSome := fun f => by
    rw [hget]
    exact h.mem_iff f
  have hfiled : Filed (e.reorder buckets).ranking slots :=
    h.filed.congr (fun _ _ _ => rfl) (fun f => by rw [hget]) fun f => by rw [hget]
  refine ⟨h.sorted, hmem, h.higher.congr fun o _ => ?_, h.lower.congr fun o _ => ?_, hfiled,
    h.nonempty, h.cover, h.tracked, h.table_size_eq, h.size_le⟩
  · cases o with
    | none => rw [higherOf?, higherOf?, hlowest]
    | some f => rw [higherOf?, higherOf?, hget]
  · cases o with
    | none => rfl
    | some f => rw [lowerOf?, lowerOf?, hget]

theorem check_eq_ok_iff (counted : e.ranking.nodes.size = e.ranking.nodes.occupied) :
    e.check = .ok () ↔ ∃ fs slots, Checked e fs slots :=
  ⟨fun h => exists_checked h counted, fun ⟨_, _, h⟩ => h.check_eq_of_counted counted⟩

theorem Checked.tracks (h : Checked e fs slots)
    (counted : e.ranking.nodes.size = e.ranking.nodes.occupied) :
    Tracks e.table e.ranking.entryAt? := by
  refine .of_size_eq (fun i a ha => ?_) h.filed.nodup_flatMap_keys (fun i => ?_) ?_
  · obtain ⟨f, hf⟩ := (h.cover i).2 (by rw [← Option.isSome_map, ← Ranking.entryAt?, ha]; rfl)
    obtain ⟨b, hb, hkey⟩ := h.tracked f i hf
    cases ha.symm.trans hb
    exact hkey
  · rw [h.filed.mem_flatMap_keys, h.cover, Ranking.entryAt?, Option.isSome_map]
  · rw [h.table_size_eq, h.length_flatMap_keys counted]

/-- The check of any engine comes to an end, whatever its links, its buckets, its table and its
capacity are. It finds no fault exactly if the chain runs from the lowest frequency upwards through
all buckets and back, every bucket leads from its head through some slots of its frequency to its tail
and back, each occupied slot once, the table leads to them from their keys, and they and the keys are
equally many and no more than the capacity. Then no slot is filed twice, the table leads nowhere else,
and the order of the buckets makes no difference. -/
theorem check_eq_ok_iff_ranked (counted : e.ranking.nodes.size = e.ranking.nodes.occupied) :
    (∀ verdict, e.Concludes verdict ↔ verdict = e.check) ∧
      (e.check = .ok () ↔ ∃ fs slots, Checked e fs slots ∧
        (0 < e.size → e.ranking.buckets.keys.min? = some e.ranking.minFreq)) ∧
      (∀ fs slots, Checked e fs slots →
        (∀ f g i, i ∈ slots f → i ∈ slots g → f = g) ∧ Tracks e.table e.ranking.entryAt?) ∧
      ∀ buckets : Dict Nat Bucket, buckets.entries.Perm e.ranking.buckets.entries →
        ((e.reorder buckets).check = .ok () ↔ e.check = .ok ()) := by
  refine ⟨e.concludes_iff, ?_, fun fs slots h => ?_, fun buckets perm => ?_⟩
  · rw [check_eq_ok_iff counted]
    exact exists_congr fun fs => exists_congr fun slots =>
      (and_iff_left_of_imp fun h => h.keys_min? counted).symm
  · exact ⟨fun _ _ _ => h.filed.unique, h.tracks counted⟩
  · have hcounted : (e.reorder buckets).ranking.nodes.size =
        (e.reorder buckets).ranking.nodes.occupied := counted
    rw [check_eq_ok_iff counted, check_eq_ok_iff hcounted]
    exact ⟨fun ⟨fs, slots, h⟩ => ⟨fs, slots, h.reorder perm.symm⟩,
      fun ⟨fs, slots, h⟩ => ⟨fs, slots, h.reorder perm⟩⟩

/-- Two entries that lead round and round in the bucket of frequency 1, and an entry of frequency 3
in the bucket of frequency 2. -/
def tangled : Lfu Nat Nat where
  ranking :=
    { nodes :=
        { slots := #[some ⟨⟨1, 10, .origin, .ofSecs 60⟩, 1, none, some 1⟩,
            some ⟨⟨2, 20, .origin, .ofSecs 60⟩, 1, some 0, some 0⟩,
            some ⟨⟨3, 30, .origin, .ofSecs 60⟩, 3, none, none⟩]
          size := 3 }
      buckets := ⟨[(1, ⟨some 0, some 1, none, some 2⟩), (2, ⟨some 2, some 2, some 1, none⟩)],
        by decide⟩
      minFreq := 1 }
  table := ⟨[(1, 0), (2, 1), (3, 2)], by decide⟩
  capacity := 3

/-- The fault that is found first depends on the order of the buckets, that there is one does not. -/
theorem check_eq_ok_iff_ranked_tangled :
    let buckets : Dict Nat Bucket :=
      ⟨[(2, ⟨some 2, some 2, some 1, none⟩), (1, ⟨some 0, some 1, none, some 2⟩)], by decide⟩
    tangled.ranking.nodes.size = tangled.ranking.nodes.occupied ∧
      tangled.Concludes (.error (.linkedTwice 0)) ∧
      (tangled.reorder buckets).check = .error (.wrongFrequency 2 3 2) ∧
      (tangled.reorder buckets).check ≠ .ok () ∧
      ¬∃ fs slots, Checked tangled fs slots ∧
        (0 < tangled.size → tangled.ranking.buckets.keys.min? = some tangled.ranking.minFreq) := by
  intro buckets
  have counted : tangled.ranking.nodes.size = tangled.ranking.nodes.occupied := rfl
  have hcheck : tangled.check = .error (.linkedTwice 0) := rfl
  have hfails : tangled.check ≠ .ok () := by simp [hcheck]
  obtain ⟨hends, hiff, -, horder⟩ := check_eq_ok_iff_ranked counted
  have hperm : buckets.entries.Perm tangled.ranking.buckets.entries := .swap _ _ _
  exact ⟨counted, (hends _).2 hcheck.symm, rfl, mt (horder buckets hperm).1 hfails, mt hiff.2 hfails⟩

end BoundedCache.Lfu
