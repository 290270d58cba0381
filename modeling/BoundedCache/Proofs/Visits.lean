import BoundedCache.Entry
import BoundedCache.Sweep
import Mathlib.Tactic.Common

/-! # Which entries a sweep removes -/
namespace BoundedCache.Sweep
variable {σ τ : Type} {K V : Type}

/-- Whether a batch from a cursor on visits a slot. -/
def covers (cursor budget i : Nat) : Bool :=
  decide (cursor ≤ i) && decide (i < Word.saturatingAdd cursor budget)

/-- Whether a slot is among those visited and holds an expired entry. -/
def doomed (entryAt : Nat → Option (Entry K V)) (now : Instant) (visited : Nat → Bool) (i : Nat) :
    Bool :=
  visited i && (entryAt i).any fun a => a.isExpired now

theorem doomed_of_eq_none {entryAt : Nat → Option (Entry K V)} {now : Instant}
    {visited : Nat → Bool} {i : Nat} (h : entryAt i = none) :
    doomed entryAt now visited i = false := by
  simp [doomed, h]

/-- One more visited slot is doomed if its entry has expired. -/
theorem doomed_concat (entryAt : Nat → Option (Entry K V)) (now : Instant) (done : List Nat)
    (i j : Nat) :
    doomed entryAt now ((done ++ [i]).contains ·) j =
      (doomed entryAt now (done.contains ·) j ||
        decide (j = i) && doomed entryAt now (fun _ => true) j) := by
  simp only [doomed, List.contains_append, List.contains_cons, List.contains_nil, Bool.or_false,
    Bool.true_and, ← Bool.and_or_distrib_right]
  rfl

theorem covers_of_mem_slots {cursor budget slotCount start i : Nat} (hstart : cursor ≤ start)
    (h : i ∈ slots start (stop cursor budget slotCount)) : covers cursor budget i = true := by
  rw [mem_slots, stop, Nat.lt_min] at h
  simp only [covers, Bool.and_eq_true, decide_eq_true_eq]
  exact ⟨Nat.le_trans hstart h.1, h.2.1⟩

theorem mem_slots_of_covers {cursor budget slotCount start i : Nat}
    (h : covers cursor budget i = true) (hstart : start ≤ max cursor i) (hi : i < slotCount) :
    i ∈ slots start (stop cursor budget slotCount) := by
  simp only [covers, Bool.and_eq_true, decide_eq_true_eq] at h
  rw [mem_slots, stop, Nat.lt_min]
  exact ⟨by omega, h.2, hi⟩

/-- What holds after each slot of a visit, in the order of the visit, holds after all of them. -/
theorem visit_induction (reclaim : Nat → σ → Bool × σ) {motive : List Nat → Nat → σ → Prop}
    (step : ∀ done i n s, motive done n s →
      motive (done ++ [i]) (n + (reclaim i s).1.toNat) (reclaim i s).2)
    {s : σ} (start : motive [] 0 s) (is : List Nat) :
    motive is (visit reclaim is s).1 (visit reclaim is s).2 := by
  suffices h : ∀ done n s, motive done n s →
      motive (done ++ is) (n + (visit reclaim is s).1) (visit reclaim is s).2 by
    simpa using h [] 0 s start
  induction is with
  | nil =>
    intro done n s h
    simpa [visit] using h
  | cons i is ih =>
    intro done n s h
    have hrest := ih _ _ _ (step done i n s h)
    rwa [List.append_assoc, Nat.add_assoc] at hrest

/-- A visit that meets nothing to remove leaves everything as it is. -/
theorem visit_eq_self (reclaim : Nat → σ → Bool × σ) {s : σ} {is : List Nat}
    (h : ∀ i ∈ is, reclaim i s = (false, s)) : visit reclaim is s = (0, s) := by
  induction is with
  | nil => rfl
  | cons i is ih =>
    rw [visit, h i List.mem_cons_self]
    simp only [ih fun j hj => h j (List.mem_cons_of_mem i hj)]
    rfl

/-- Visits of states that agree through a view of them agree. -/
theorem visit_map (view : σ → τ) {reclaim : Nat → σ → Bool × σ} {reclaim' : Nat → τ → Bool × τ}
    (agree : ∀ i s, reclaim' i (view s) = (reclaim i s).map id view) (is : List Nat) (s : σ) :
    visit reclaim' is (view s) = (visit reclaim is s).map id view := by
  induction is generalizing s with
  | nil => rfl
  | cons i is ih =>
    rw [visit, agree]
    simp only [Prod.map, id, ih]
    rfl

/-- A visit that removes the expired entries it meets removes those of the visited slots that are
doomed from the start. -/
theorem visit_removes (reclaim : Nat → σ → Bool × σ) (entryAt : σ → Nat → Option (Entry K V))
    (now : Instant) {s : σ} {motive : (Nat → Bool) → Nat → σ → Prop}
    (view : ∀ gone n s', motive gone n s' →
      ∀ j, entryAt s' j = if gone j then none else entryAt s j)
    (expired : ∀ gone n s' i a, motive gone n s' → entryAt s' i = some a →
      a.isExpired now = true → (reclaim i s').1 = true ∧
        motive (fun j => gone j || decide (j = i)) (n + 1) (reclaim i s').2)
    (live : ∀ s' i, (∀ a, entryAt s' i = some a → a.isExpired now = false) →
      reclaim i s' = (false, s'))
    (start : motive (fun _ => false) 0 s) (slots : List Nat) :
    motive (doomed (entryAt s) now (slots.contains ·)) (visit reclaim slots s).1
      (visit reclaim slots s).2 := by
  refine visit_induction reclaim
    (motive := fun done n s' => motive (doomed (entryAt s) now (done.contains ·)) n s') ?_ start
    slots
  intro done i n s' h
  have hview := view _ n s' h i
  rw [funext (doomed_concat (entryAt s) now done i)]
  -- the entry in the slot is the first one, unless an earlier visit removed it
  by_cases hi : ∃ a, entryAt s' i = some a ∧ a.isExpired now = true
  · obtain ⟨a, ha, hx⟩ := hi
    obtain ⟨hcount, hnext⟩ := expired _ n s' i a h ha hx
    have hdoomed : doomed (entryAt s) now (fun _ => true) i = true := by
      rw [ha] at hview
      split at hview
      · cases hview
      · simp [doomed, ← hview, hx]
    have hgone : (fun j => doomed (entryAt s) now (done.contains ·) j ||
        decide (j = i) && doomed (entryAt s) now (fun _ => true) j) =
          fun j => doomed (entryAt s) now (done.contains ·) j || decide (j = i) := by
      funext j
      by_cases hj : j = i
      · simp [hj, hdoomed]
      · simp [hj]
    rw [hcount, hgone]
    exact hnext
  · have hlive : ∀ a, entryAt s' i = some a → a.isExpired now = false := by
      intro a ha
      simpa using fun hx => hi ⟨a, ha, hx⟩
    have hgone : (fun j => doomed (entryAt s) now (done.contains ·) j ||
        decide (j = i) && doomed (entryAt s) now (fun _ => true) j) =
          doomed (entryAt s) now (done.contains ·) := by
      funext j
      by_cases hj : j = i
      · subst hj
        cases hg : doomed (entryAt s) now (done.contains ·) j with
        | true => rfl
        | false =>
          rw [hg, if_neg (by simp)] at hview
          rw [hview] at hlive
          cases ha : entryAt s j with
          | none => simp [doomed, ha]
          | some a => simp [doomed, ha, hlive a ha]
      · simp [hj]
    rw [live s' i hlive, hgone]
    exact h

/-- The slots of a batch are those that it covers, so far as they hold entries. -/
theorem doomed_slots (entryAt : Nat → Option (Entry K V)) (now : Instant) (budget slotCount : Nat)
    {cursor start : Nat} (hstart : cursor ≤ start)
    (bounds : ∀ i a, entryAt i = some a → start ≤ max cursor i ∧ i < slotCount) :
    doomed entryAt now ((slots start (stop cursor budget slotCount)).contains ·) =
      doomed entryAt now (covers cursor budget) := by
  funext i
  cases ha : entryAt i with
  | none => rw [doomed_of_eq_none ha, doomed_of_eq_none ha]
  | some a =>
    obtain ⟨hmax, hi⟩ := bounds i a ha
    have hcontains : (slots start (stop cursor budget slotCount)).contains i =
        covers cursor budget i := by
      rw [Bool.eq_iff_iff, List.contains_iff_mem]
      exact ⟨covers_of_mem_slots hstart, fun hcovers => mem_slots_of_covers hcovers hmax hi⟩
    rw [doomed, doomed, hcontains]

/-- The largest budget covers every slot that words can count. -/
theorem doomed_covers_max (entryAt : Nat → Option (Entry K V)) (now : Instant)
    (bounds : ∀ i a, entryAt i = some a → i < Word.max) :
    doomed entryAt now (covers 0 Word.max) = doomed entryAt now fun _ => true := by
  funext i
  cases ha : entryAt i with
  | none => rw [doomed_of_eq_none ha, doomed_of_eq_none ha]
  | some a => simp [doomed, covers, Word.saturatingAdd, bounds i a ha]

theorem stop_max {slotCount : Nat} (h : slotCount ≤ Word.max) :
    stop 0 Word.max slotCount = slotCount := by
  rw [stop, Word.saturatingAdd_of_le (by simp)]
  omega

theorem pass_succ (batch : Nat → σ → SweepProgress × σ) (fuel cursor : Nat) (s : σ) :
    pass batch (fuel + 1) cursor s =
      match (batch cursor s).1.next? with
      | some next =>
        ((batch cursor s).1.removed + (pass batch fuel next (batch cursor s).2).1,
          (pass batch fuel next (batch cursor s).2).2)
      | none => ((batch cursor s).1.removed, (batch cursor s).2) := rfl

/-- A pass keeps what every batch keeps. -/
theorem pass_induction (batch : Nat → σ → SweepProgress × σ) {motive : σ → Prop}
    (step : ∀ cursor s, motive s → motive (batch cursor s).2) (fuel cursor : Nat) {s : σ}
    (h : motive s) : motive (pass batch fuel cursor s).2 := by
  induction fuel generalizing cursor s with
  | zero => exact h
  | succ fuel ih =>
    rw [pass_succ]
    split
    · exact ih _ (step cursor s h)
    · exact step cursor s h

/-- A pass ends with its first batch if no slot is left. -/
theorem pass_of_next?_eq_none (batch : Nat → σ → SweepProgress × σ) {cursor : Nat} {s : σ}
    (h : (batch cursor s).1.next? = none) (fuel : Nat) :
    pass batch (fuel + 1) cursor s = ((batch cursor s).1.removed, (batch cursor s).2) := by
  rw [pass_succ, h]

end BoundedCache.Sweep
