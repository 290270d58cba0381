import BoundedCache.Proofs.Visits

/-! # Batches of any budgets visit the same slots

Batches that go on where the one before stopped visit the slots of one long range, so neither the
entries they remove nor the state they leave depends on where the range is cut.
-/
namespace BoundedCache.Sweep
variable {σ τ : Type}

/-- Batches with budgets of their own, each from the cursor that the one before gave: the total of
the removed entries and what is left, or none if the budgets end before the slots. -/
def chain (batch : Nat → Nat → σ → SweepProgress × σ) : Nat → σ → List Nat → Option (Nat × σ)
  | _, _, [] => none
  | cursor, state, budget :: rest =>
    let (progress, state) := batch budget cursor state
    match progress.next? with
    | some next =>
      (chain batch next state rest).map fun (more, state) => (progress.removed + more, state)
    | none => some (progress.removed, state)

/-- A batch that visits the slots of its range from the first one that can hold an entry. -/
def batch (reclaim : Nat → σ → Bool × σ) (first : Nat) (slotCount : σ → Nat)
    (budget cursor : Nat) (state : σ) : SweepProgress × σ :=
  let count := slotCount state
  let stop := stop cursor budget count
  let (removed, state) := visit reclaim (slots (max cursor first) stop) state
  ({ removed, next? := if stop < count then some stop else none }, state)

/-- A pass makes batches of one budget, as long as they last. -/
theorem pass_of_chain (batch : Nat → Nat → σ → SweepProgress × σ) {budget fuel cursor : Nat} {s : σ}
    {r : Nat × σ} (h : chain batch cursor s (List.replicate fuel budget) = some r) :
    pass (batch budget) fuel cursor s = r := by
  induction fuel generalizing cursor s r with
  | zero => cases h
  | succ fuel ih =>
    rw [List.replicate_succ, chain] at h
    rw [pass_succ]
    cases hnext : (batch budget cursor s).1.next? with
    | none => simpa only [hnext, Option.some.injEq] using h
    | some next =>
      simp only [hnext, Option.map_eq_some_iff] at h
      obtain ⟨more, hmore, rfl⟩ := h
      simp only [ih hmore]

theorem slots_split {cursor middle last : Nat} (first : Nat) (h : cursor ≤ middle)
    (h' : middle ≤ last) :
    slots (max cursor first) middle ++ slots (max middle first) last =
      slots (max cursor first) last := by
  rcases Nat.le_total first middle with hfirst | hfirst
  · rw [Nat.max_eq_left hfirst]
    exact slots_append (Nat.max_le.2 ⟨h, hfirst⟩) h'
  · have hempty : slots first middle = [] := by
      rw [slots, Nat.sub_eq_zero_of_le hfirst, List.range'_zero]
    rw [Nat.max_eq_right hfirst, Nat.max_eq_right (Nat.le_trans h hfirst), hempty, List.nil_append]

section
variable (reclaim : Nat → σ → Bool × σ) (first : Nat) (slotCount : σ → Nat)

theorem slotCount_visit (keeps : ∀ i s, slotCount (reclaim i s).2 = slotCount s) (is : List Nat)
    (s : σ) : slotCount (visit reclaim is s).2 = slotCount s :=
  visit_induction reclaim (motive := fun _ _ s' => slotCount s' = slotCount s)
    (fun _ _ _ s' h => (keeps _ s').trans h) rfl is

/-- The batches visit the slots from the cursor on one after another, whatever their budgets. -/
theorem chain_batch (keeps : ∀ i s, slotCount (reclaim i s).2 = slotCount s) (cursor : Nat) (s : σ)
    (fits : slotCount s ≤ Word.max) (hcursor : cursor ≤ slotCount s) {budgets : List Nat}
    (pos : ∀ b ∈ budgets, 1 ≤ b) (enough : slotCount s < cursor + budgets.length) :
    chain (batch reclaim first slotCount) cursor s budgets =
      some (visit reclaim (slots (max cursor first) (slotCount s)) s) := by
  induction budgets generalizing cursor s with
  | nil =>
    rw [List.length_nil] at enough
    omega
  | cons b rest ih =>
    have hb := pos b List.mem_cons_self
    rw [List.length_cons] at enough
    rcases Nat.lt_or_ge (cursor + b) (slotCount s) with hlt | hge
    · -- slots are left: the rest of the batches goes on from where this one stops
      have hstop : stop cursor b (slotCount s) = cursor + b := by
        rw [stop, Word.saturatingAdd_of_le (by omega)]
        omega
      have hcount := slotCount_visit reclaim slotCount keeps
        (slots (max cursor first) (cursor + b)) s
      have hrest := ih (cursor + b) (visit reclaim (slots (max cursor first) (cursor + b)) s).2
        (by omega) (by omega) (fun c hc => pos c (List.mem_cons_of_mem _ hc)) (by omega)
      rw [← slots_split first (Nat.le_add_right cursor b) (Nat.le_of_lt hlt), visit_append]
      simp only [chain, batch, hstop, hlt, if_true, hrest, hcount, Option.map_some]
    · have hstop : stop cursor b (slotCount s) = slotCount s := by
        rw [stop, Word.saturatingAdd]
        omega
      simp only [chain, batch, hstop, Nat.lt_irrefl, if_false]

theorem pass_batch (keeps : ∀ i s, slotCount (reclaim i s).2 = slotCount s) (s : σ)
    (fits : slotCount s ≤ Word.max) {budget : Nat} (pos : 1 ≤ budget) :
    pass (batch reclaim first slotCount budget) (slotCount s + 1) 0 s =
      visit reclaim (slots (max 0 first) (slotCount s)) s := by
  refine pass_of_chain (batch reclaim first slotCount)
    (chain_batch reclaim first slotCount keeps 0 s fits (Nat.zero_le _) (fun b hb => ?_) ?_)
  · exact List.eq_of_mem_replicate hb ▸ pos
  · rw [List.length_replicate, Nat.zero_add]
    exact Nat.lt_succ_self _

end

/-- Batches that agree through a view of the states make passes that agree. -/
theorem pass_map (f : σ → τ) (batch : Nat → σ → SweepProgress × σ)
    (batch' : Nat → τ → SweepProgress × τ)
    (agree : ∀ cursor s, batch' cursor (f s) = (batch cursor s).map id f) (fuel cursor : Nat)
    (s : σ) : pass batch' fuel cursor (f s) = (pass batch fuel cursor s).map id f := by
  induction fuel generalizing cursor s with
  | zero => rfl
  | succ fuel ih =>
    rw [pass_succ, pass_succ, agree]
    cases hnext : (batch cursor s).1.next? with
    | none => simp only [Prod.map, id, hnext]
    | some next => simp only [Prod.map, id, hnext, ih]

/-- Batches that agree through a view of the states make chains that agree. -/
theorem chain_map (f : σ → τ) (batch : Nat → Nat → σ → SweepProgress × σ)
    {batch' : Nat → Nat → τ → SweepProgress × τ}
    (agree : ∀ budget cursor s, batch' budget cursor (f s) = (batch budget cursor s).map id f)
    (cursor : Nat) (s : σ) (budgets : List Nat) :
    chain batch' cursor (f s) budgets = (chain batch cursor s budgets).map (Prod.map id f) := by
  induction budgets generalizing cursor s with
  | nil => rfl
  | cons b rest ih =>
    rw [chain, chain, agree]
    cases hnext : (batch b cursor s).1.next? with
    | none => simp only [Prod.map, id, hnext, Option.map_some]
    | some next =>
      simp only [Prod.map, id, hnext, ih, Option.map_map]
      rfl

end BoundedCache.Sweep
