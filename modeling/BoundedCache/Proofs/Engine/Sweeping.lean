import BoundedCache.Proofs.Engine.Order
import BoundedCache.Proofs.Expiry
import BoundedCache.Proofs.Requests

/-! # Reads do not notice sweeps

A run with sweeps between its reads and removals is compared with the run without them. The swept
engine lacks some entries of the plain one, all of which had expired at a sweep; as the time never
goes back, no read gives their values later, and taking them out leaves the order of the others alone.
-/
namespace BoundedCache

/-- A read that has the same answer after a sweep, but for the reason of a miss. -/
def SameRead {V : Type} (plain swept : Except MissReason V) : Prop :=
  swept = plain ∨ plain = .error .expired ∧ swept = .error .absent

namespace Engine
open Lfu.Ranking
variable {K V : Type} [DecidableEq K] {p e : Engine K V} {gone : Nat → Bool} {times : List Instant}
  {i : Nat} {a : Entry K V} {k : K} {now : Instant}

/-- The second engine is the first one without the entries in some slots, which all had expired at
one of the times. -/
structure Thinned (p : Engine K V) (gone : Nat → Bool) (times : List Instant) (e : Engine K V) :
    Prop where
  kind_eq : e.kind = p.kind
  ordered : ∃ slots, p.Ordered slots ∧ e.Ordered (remaining gone slots)
  entryAt?_eq : ∀ j, e.entryAt? j = if gone j then none else p.entryAt? j
  stale : ∀ i a, gone i = true → p.entryAt? i = some a → ∃ t ∈ times, a.isExpired t = true

namespace Thinned

theorem refl (h : p.Sound) : Thinned p (fun _ => false) [] p := by
  obtain ⟨slots, hslots⟩ := h.exists_ordered
  exact ⟨rfl, ⟨slots, hslots, (remaining_none slots).symm ▸ hslots⟩, fun _ => rfl, fun _ _ => nofun⟩

theorem sound (h : Thinned p gone times e) : p.Sound := by
  obtain ⟨slots, hp, -⟩ := h.ordered
  exact hp.sound

theorem sound_swept (h : Thinned p gone times e) : e.Sound := by
  obtain ⟨slots, -, he⟩ := h.ordered
  exact he.sound

theorem entryAt?_of_gone (h : Thinned p gone times e) (hg : gone i = false) :
    e.entryAt? i = p.entryAt? i := by
  rw [h.entryAt?_eq, hg, if_neg Bool.false_ne_true]

/-- The table of the swept engine leads to the slots that are left. -/
theorem table_eq (h : Thinned p gone times e) (k : K) :
    e.table.get? k = (p.table.get? k).filter fun i => !gone i :=
  h.sound.tracks.get?_of_gone h.sound_swept.tracks h.entryAt?_eq k

theorem expired_of_gone (h : Thinned p gone times e) (hg : gone i = true)
    (hi : p.entryAt? i = some a) (hle : ∀ t ∈ times, t ≤ now) : a.isExpired now = true := by
  obtain ⟨t, ht, hx⟩ := h.stale i a hg hi
  exact Entry.isExpired_of_le hx (hle t ht)

/-! ## What a request does to both -/

/-- An entry leaves both engines. -/
theorem without (h : Thinned p gone times e) (hi : p.entryAt? i = some a) (hg : gone i = false) :
    Thinned (p.without i a) gone times (e.without i a) := by
  obtain ⟨slots, hp, he⟩ := h.ordered
  have hleft := he.without ((h.entryAt?_of_gone hg).trans hi)
  rw [← remaining_dropped] at hleft
  refine ⟨?_, ⟨_, hp.without hi, hleft⟩, fun j => ?_, fun j b hj hb => ?_⟩
  · rw [kind_without, kind_without, h.kind_eq]
  · rw [entryAt?_without, entryAt?_without, h.entryAt?_eq]
    cases gone j <;> simp
  · rw [entryAt?_without] at hb
    split at hb
    · cases hb
    · exact h.stale j b hj hb

/-- An entry leaves the plain engine that the swept one lacks already. -/
theorem without_gone (h : Thinned p gone times e) (hi : p.entryAt? i = some a) (hg : gone i = true) :
    Thinned (p.without i a) gone times e := by
  obtain ⟨slots, hp, he⟩ := h.ordered
  rw [← remaining_dropped_of_gone hg] at he
  refine ⟨?_, ⟨_, hp.without hi, he⟩, fun j => ?_, fun j b hj hb => ?_⟩
  · rw [kind_without, h.kind_eq]
  · rw [entryAt?_without, h.entryAt?_eq]
    by_cases hj : i = j
    · simp [← hj, hg]
    · rw [if_neg hj]
  · rw [entryAt?_without] at hb
    split at hb
    · cases hb
    · exact h.stale j b hj hb

/-- A use of an entry moves its slot past the others in both engines alike. -/
theorem used (h : Thinned p gone times e) (hi : p.entryAt? i = some a) (hg : gone i = false) :
    Thinned (p.used i) gone times (e.used i) := by
  have hkind := h.kind_eq
  refine ⟨?_, ?_, fun j => ?_, fun j b hj hb => h.stale j b hj ?_⟩
  · rw [kind_used, kind_used, hkind]
  · obtain ⟨slots, hp, he⟩ := h.ordered
    have hi' : e.entryAt? i = some a := (h.entryAt?_of_gone hg).trans hi
    cases p with
    | lru p => cases e with
      | lru e =>
        refine ⟨fun f => i :: dropped slots i f,
          fun f => (hp f).moveToFront ((hp f).mem_of_entryAt? hi), fun f => ?_⟩
        have hmoved := (he f).moveToFront ((he f).mem_of_entryAt? hi')
        have hslots : remaining gone (fun f => i :: dropped slots i f) f =
            i :: dropped (remaining gone slots) i f := by
          rw [← remaining_dropped]
          exact List.filter_cons_of_pos (by simp [hg])
        rw [hslots]
        exact hmoved
      | lfu e => cases hkind
    | lfu p => cases e with
      | lru e => cases hkind
      | lfu e =>
        obtain ⟨f, hf⟩ := Lfu.Inv.exists_freq hp hi
        have htouched := Lfu.Inv.touch he (mem_remaining.2 ⟨hf, hg⟩)
        rw [← remaining_dropped, ← remaining_appended hg] at htouched
        exact ⟨_, Lfu.Inv.touch hp hf, htouched⟩
  · rw [entryAt?_used, entryAt?_used, h.entryAt?_eq]
  · rwa [entryAt?_used] at hb

theorem get (h : Thinned p gone times e) (hle : ∀ t ∈ times, t ≤ now) (k : K) :
    SameRead (p.get k now).1 (e.get k now).1 ∧
      Thinned (p.get k now).2 gone times (e.get k now).2 := by
  have hk' := h.table_eq k
  cases hk : p.table.get? k with
  | none =>
    rw [hk, Option.filter_none] at hk'
    rw [get_absent hk, get_absent hk']
    exact ⟨.inl rfl, h⟩
  | some i =>
    obtain ⟨a, hi, -⟩ := h.sound.tracks.exists_entry hk
    rw [hk, Option.filter_some] at hk'
    rw [h.sound.get_of_slot hk hi]
    cases hg : gone i with
    | true =>
      rw [hg, Bool.not_true, if_neg Bool.false_ne_true] at hk'
      rw [get_absent hk', if_pos (h.expired_of_gone hg hi hle)]
      exact ⟨.inr ⟨rfl, rfl⟩, h.without_gone hi hg⟩
    | false =>
      rw [hg, Bool.not_false, if_pos rfl] at hk'
      rw [h.sound_swept.get_of_slot hk' ((h.entryAt?_of_gone hg).trans hi)]
      split
      · exact ⟨.inl rfl, h.without hi hg⟩
      · exact ⟨.inl rfl, h.used hi hg⟩

theorem remove (h : Thinned p gone times e) (k : K) :
    ((e.remove k).1 = (p.remove k).1 ∨
      (e.remove k).1 = none ∧ ∃ a, p.find? k = some a ∧ ∃ t ∈ times, a.isExpired t = true) ∧
    Thinned (p.remove k).2 gone times (e.remove k).2 := by
  have hk' := h.table_eq k
  cases hk : p.table.get? k with
  | none =>
    rw [hk, Option.filter_none] at hk'
    rw [remove_absent hk, remove_absent hk']
    exact ⟨.inl rfl, h⟩
  | some i =>
    obtain ⟨a, hi, -⟩ := h.sound.tracks.exists_entry hk
    rw [hk, Option.filter_some] at hk'
    rw [h.sound.remove_of_slot hk hi]
    cases hg : gone i with
    | true =>
      rw [hg, Bool.not_true, if_neg Bool.false_ne_true] at hk'
      rw [remove_absent hk', find?, hk, Option.bind_some]
      exact ⟨.inr ⟨rfl, a, hi, h.stale i a hg hi⟩, h.without_gone hi hg⟩
    | false =>
      rw [hg, Bool.not_false, if_pos rfl] at hk'
      rw [h.sound_swept.remove_of_slot hk' ((h.entryAt?_of_gone hg).trans hi)]
      exact ⟨.inl rfl, h.without hi hg⟩

/-- A sweep of the one engine takes out what has expired, and nothing changes in the other. -/
theorem sweep (h : Thinned p gone times e) (cursor budget : Nat) (now : Instant) :
    ∃ gone', Thinned p gone' (times ++ [now]) (e.sweep cursor budget now).2 := by
  obtain ⟨slots, hp, he⟩ := h.ordered
  have hswept := h.sound_swept.sweep cursor budget now
  have hleft := he.sweep cursor budget now
  rw [remaining_remaining] at hleft
  refine ⟨_, ?_, ⟨slots, hp, hleft⟩, fun j => ?_, fun i a hg hi => ?_⟩
  · have hpolicy : (e.sweep cursor budget now).2.policy = e.policy := by cases e <;> rfl
    rw [kind, hpolicy, hswept.capacity_eq]
    exact h.kind_eq
  · rw [hswept.entryAt?_eq, h.entryAt?_eq]
    cases gone j <;> simp
  · cases hgone : gone i with
    | true =>
      obtain ⟨t, ht, hx⟩ := h.stale i a hgone hi
      exact ⟨t, List.mem_append_left _ ht, hx⟩
    | false =>
      rw [hgone, Bool.false_or, Sweep.doomed, h.entryAt?_of_gone hgone, hi, Option.any_some,
        Bool.and_eq_true] at hg
      exact ⟨now, List.mem_concat_self, hg.2⟩

/-! ## Whole scripts -/

/-- After any script of reads, removals and sweeps in the order of time, the swept engine lacks only
what had expired at a sweep. -/
theorem run (h : Thinned p gone times e) {script : List (Request K V)}
    (takes : ∀ r ∈ script, r.takesOut = true)
    (ordered : (times ++ script.filterMap Request.instant?).Pairwise (· ≤ ·)) :
    ∃ gone', Thinned (p.run (script.filter fun r => !r.isSweep)).2 gone'
      (times ++ script.filterMap Request.sweepTime?) (e.run script).2 := by
  induction script generalizing p e gone times with
  | nil =>
    rw [List.filterMap_nil, List.append_nil]
    exact ⟨gone, h⟩
  | cons r rest ih =>
    have htakes := takes r List.mem_cons_self
    have hrest := fun r' hr' => takes r' (List.mem_cons_of_mem r hr')
    cases r with
    | get k now =>
      have hinstants : (times ++ now :: rest.filterMap Request.instant?).Pairwise (· ≤ ·) := ordered
      have hle : ∀ t ∈ times, t ≤ now := fun t ht =>
        (List.pairwise_append.1 hinstants).2.2 t ht now List.mem_cons_self
      refine ih (h.get hle k).2 hrest (hinstants.sublist ?_)
      exact (List.sublist_cons_self now _).append_left times
    | remove k => exact ih (h.remove k).2 hrest ordered
    | sweep cursor budget now =>
      obtain ⟨gone', hswept⟩ := h.sweep cursor budget now
      have hinstants : (times ++ [now] ++ rest.filterMap Request.instant?).Pairwise (· ≤ ·) := by
        rw [← List.append_cons]
        exact ordered
      have hrun := ih hswept hrest hinstants
      rw [← List.append_cons] at hrun
      exact hrun
    | _ => cases htakes

/-! ## What is left -/

theorem live_entryAt? (h : Thinned p gone times e) (hle : ∀ t ∈ times, t ≤ now) (i : Nat) :
    (e.entryAt? i).filter (fun a => !a.isExpired now) =
      (p.entryAt? i).filter fun a => !a.isExpired now := by
  cases hg : gone i with
  | true =>
    rw [h.entryAt?_eq, if_pos hg]
    cases hi : p.entryAt? i with
    | none => rfl
    | some a =>
      rw [Option.filter_some, h.expired_of_gone hg hi hle]
      rfl
  | false => rw [h.entryAt?_of_gone hg]

theorem live_find? (h : Thinned p gone times e) (hle : ∀ t ∈ times, t ≤ now) (k : K) :
    (e.find? k).filter (fun a => !a.isExpired now) =
      (p.find? k).filter fun a => !a.isExpired now := by
  rw [find?, find?, h.table_eq]
  cases p.table.get? k with
  | none => rfl
  | some i =>
    rw [Option.bind_some, ← h.live_entryAt? hle, Option.filter_some]
    cases hg : gone i with
    | true =>
      rw [h.entryAt?_eq, if_pos hg]
      rfl
    | false => rfl

theorem live_order? (h : Thinned p gone times e) (hle : ∀ t ∈ times, t ≤ now) (f : Nat) :
    ∃ xs ys, p.order? f = some xs ∧ e.order? f = some ys ∧
      ys.filter (fun a => !a.isExpired now) = xs.filter fun a => !a.isExpired now := by
  obtain ⟨slots, hp, he⟩ := h.ordered
  refine ⟨_, _, hp.order?_eq f, he.order?_eq f, ?_⟩
  rw [remaining, List.filter_filterMap, List.filter_filterMap, List.filterMap_filter]
  apply List.filterMap_congr
  intro i _
  rw [← h.live_entryAt? hle]
  cases hg : gone i with
  | true =>
    rw [h.entryAt?_eq, if_pos hg]
    rfl
  | false => rfl

end Thinned

/-- Sweeps among reads and removals in the order of time, from any cursors and with any budgets, are
not seen by the reads, but that a miss may have another reason; a removal is the only one to notice,
by finding nothing where an entry had expired at a sweep before. In the end the entries that live are
the same, and in the same order. -/
theorem run_swept (policy : Policy) (capacity : Nat) (requests script : List (Request K V))
    (takes : ∀ r ∈ script, r.takesOut = true)
    (ordered : (script.filterMap Request.instant?).Pairwise (· ≤ ·)) :
    let start : Engine K V := ((new policy capacity).run requests).2
    let plain (done : List (Request K V)) := (start.run (done.filter fun r => !r.isSweep)).2
    let swept (done : List (Request K V)) := (start.run done).2
    (∀ done k now, done ++ [.get k now] <+: script →
      SameRead ((plain done).get k now).1 ((swept done).get k now).1) ∧
    (∀ done k, done ++ [.remove k] <+: script →
      ((swept done).remove k).1 = ((plain done).remove k).1 ∨
        ((swept done).remove k).1 = none ∧ ∃ a, (plain done).find? k = some a ∧
          ∃ t ∈ done.filterMap Request.sweepTime?, a.isExpired t = true) ∧
    ∀ now, (∀ t ∈ script.filterMap Request.instant?, t ≤ now) →
      (∀ k, ((swept script).find? k).filter (fun a => !a.isExpired now) =
        ((plain script).find? k).filter fun a => !a.isExpired now) ∧
      ∀ f, ∃ xs ys, (plain script).order? f = some xs ∧ (swept script).order? f = some ys ∧
        ys.filter (fun a => !a.isExpired now) = xs.filter fun a => !a.isExpired now := by
  intro start plain swept
  have hstart : start.Sound := ((Sound.new policy capacity).steady_run requests).sound
  have hrun (done : List (Request K V)) (hdone : done <+: script) :
      ∃ gone, Thinned (plain done) gone (done.filterMap Request.sweepTime?) (swept done) :=
    (Thinned.refl hstart).run (fun r hr => takes r (hdone.subset hr))
      (ordered.sublist (hdone.sublist.filterMap _))
  refine ⟨fun done k now hdone => ?_, fun done k hdone => ?_, fun now hle => ?_⟩
  · obtain ⟨gone, h⟩ := hrun done ((List.prefix_append done _).trans hdone)
    have hinstants := ordered.sublist (hdone.sublist.filterMap _)
    rw [List.filterMap_append, List.pairwise_append] at hinstants
    refine (h.get (fun t ht => ?_) k).1
    exact hinstants.2.2 t (Request.sweepTimes_subset done ht) now List.mem_cons_self
  · obtain ⟨gone, h⟩ := hrun done ((List.prefix_append done _).trans hdone)
    exact (h.remove k).1
  · obtain ⟨gone, h⟩ := hrun script (List.prefix_refl script)
    have htimes : ∀ t ∈ script.filterMap Request.sweepTime?, t ≤ now := fun t ht =>
      hle t (Request.sweepTimes_subset script ht)
    exact ⟨h.live_find? htimes, h.live_order? htimes⟩

/-- Two sweeps among two reads and a removal: the second read and the removal miss what the sweeps took
out. -/
theorem run_swept_three :
    let requests : List (Request Nat Nat) :=
      [.put 1 10 (.ofSecs 2) .origin, .put 2 20 (.ofSecs 9) .origin, .put 3 30 (.ofSecs 3) .origin]
    let script : List (Request Nat Nat) :=
      [.get 2 (.ofMillis 1000), .sweep 0 2 (.ofMillis 2000), .get 1 (.ofMillis 2500),
        .sweep 1 9 (.ofMillis 3000), .remove 3]
    let start : Engine Nat Nat := ((new .lfu 3).run requests).2
    let plain (done : List (Request Nat Nat)) := (start.run (done.filter fun r => !r.isSweep)).2
    let swept (done : List (Request Nat Nat)) := (start.run done).2
    (∀ r ∈ script, r.takesOut = true) ∧ (script.filterMap Request.instant?).Pairwise (· ≤ ·) ∧
    SameRead ((plain (script.take 2)).get 1 (.ofMillis 2500)).1
      ((swept (script.take 2)).get 1 (.ofMillis 2500)).1 ∧
    ((swept (script.take 4)).remove 3).1 = none ∧
    ∀ f, ∃ xs ys, (plain script).order? f = some xs ∧ (swept script).order? f = some ys ∧
      ys.filter (fun a => !a.isExpired (.ofMillis 3000)) =
        xs.filter fun a => !a.isExpired (.ofMillis 3000) := by
  intro requests script start plain swept
  have htakes : ∀ r ∈ script, r.takesOut = true := by decide
  have hordered : (script.filterMap Request.instant?).Pairwise (· ≤ ·) := by decide
  obtain ⟨hget, -, hend⟩ := run_swept .lfu 3 requests script htakes hordered
  refine ⟨htakes, hordered, hget (script.take 2) 1 _ ?_, by decide, (hend _ (by decide)).2⟩
  exact List.take_prefix 3 script

end Engine
end BoundedCache
