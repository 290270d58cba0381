import BoundedCache.Proofs.Engine.Soundness

/-! # A pass of batches with other requests in between

The batches go on from their cursors whatever is asked of the engine between them. What an entry's
slot and life are does not change while it is tracked, so a slot behind the cursor never again holds
an entry that the pass had to remove.
-/
namespace BoundedCache
variable {K V : Type}

/-- A batch of a pass, and the requests made after it and before the next batch. -/
structure Round (K V : Type) where
  budget : Nat
  now : Instant
  requests : List (Request K V)

/-- The batch visits a slot at least, and nothing happens before a time. -/
structure Round.Admissible (t : Instant) (round : Round K V) : Prop where
  pos : 1 ≤ round.budget
  notBefore : t ≤ round.now
  requests : ∀ r ∈ round.requests, r.NotBefore t

instance (t : Instant) (round : Round K V) : Decidable (round.Admissible t) :=
  decidable_of_iff (1 ≤ round.budget ∧ t ≤ round.now ∧ ∀ r ∈ round.requests, r.NotBefore t)
    ⟨fun ⟨pos, notBefore, requests⟩ => ⟨pos, notBefore, requests⟩,
      fun h => ⟨h.pos, h.notBefore, h.requests⟩⟩

/-- The engine before and after a batch, and the time of the batch. -/
structure Batch (K V : Type) where
  before : Engine K V
  now : Instant
  after : Engine K V

/-- What had expired at a time was not created before it. -/
def Fresh (t created : Instant) (ttl : Duration) : Prop :=
  ∀ expiry, created.add? ttl = some expiry → expiry ≤ t → t ≤ created

theorem fresh_of_live {a : Entry K V} {t now : Instant} (h : t ≤ now)
    (live : a.isExpired now = false) : Fresh t a.createdAt a.ttl := by
  intro expiry hexpiry hle
  have hx : a.isExpired now = true :=
    Entry.isExpired_iff.2 ⟨expiry, hexpiry, Instant.le_trans hle h⟩
  rw [live] at hx
  cases hx

namespace Engine

/-- How many requests come between the batches. -/
def requestCount : List (Round K V) → Nat
  | [] => 0
  | round :: rest => round.requests.length + requestCount rest

variable [DecidableEq K]

/-- A batch in each round, from the cursor that the one before gave: the batches made, and what is
left by the last one if no slot was left to visit. -/
def interleaved (e : Engine K V) (cursor : Nat) :
    List (Round K V) → List (Batch K V) × Option (Engine K V)
  | [] => ([], none)
  | round :: rest =>
    let (progress, after) := e.sweep cursor round.budget round.now
    let batch : Batch K V := { before := e, now := round.now, after }
    match progress.next? with
    | none => ([batch], some after)
    | some next =>
      let (batches, last?) := (after.run round.requests).2.interleaved next rest
      (batch :: batches, last?)

variable {e : Engine K V} {t : Instant} {bound cursor next n : Nat} {round : Round K V}
  {rounds : List (Round K V)}

theorem interleaved_last (hnext : (e.sweep cursor round.budget round.now).1.next? = none)
    (rest : List (Round K V)) :
    e.interleaved cursor (round :: rest) =
      ([⟨e, round.now, (e.sweep cursor round.budget round.now).2⟩],
        some (e.sweep cursor round.budget round.now).2) := by
  rw [interleaved]
  simp only [hnext]

theorem interleaved_next (hnext : (e.sweep cursor round.budget round.now).1.next? = some next)
    (rest : List (Round K V)) :
    e.interleaved cursor (round :: rest) =
      ((((e.sweep cursor round.budget round.now).2.run round.requests).2.interleaved next rest).map
        (⟨e, round.now, (e.sweep cursor round.budget round.now).2⟩ :: ·) id) := by
  rw [interleaved]
  simp only [hnext]
  rfl

/-- A pass that has come to a cursor: the slots behind it hold nothing that the pass has to remove,
and words can count the slots even after so many more requests. -/
structure Underway (t : Instant) (bound n cursor : Nat) (e : Engine K V) : Prop where
  roomy : Roomy n e
  bound_eq : e.capacity + Lru.sentinels = bound
  cursor_lt : cursor < bound
  fresh : Lives (fun i created ttl => i < cursor → Fresh t created ttl) e.entryAt?

namespace Underway

theorem slotCount_le (h : Underway t bound n cursor e) : e.slotCount ≤ bound :=
  h.bound_eq ▸ h.roomy.sound.slotCount_le

/-- A batch leaves nothing to remove behind the place where its budget ends. -/
theorem fresh_sweep (h : Underway t bound n cursor e) (budget : Nat) {now : Instant}
    (hnow : t ≤ now) :
    Lives (fun i created ttl => i < cursor + budget → Fresh t created ttl)
      (e.sweep cursor budget now).2.entryAt? := by
  intro i a hi hlt
  rw [(h.roomy.sound.sweep cursor budget now).entryAt?_eq] at hi
  split at hi
  · cases hi
  · rename_i hstays
    rcases Nat.lt_or_ge i cursor with hbehind | hahead
    · exact h.fresh i a hi hbehind
    · have hmax := Nat.lt_of_lt_of_le (lt_slotCount hi) h.roomy.slotCount_le_max
      have hcovers : Sweep.covers cursor budget i = true := by
        rw [Sweep.covers, Word.saturatingAdd, Bool.and_eq_true, decide_eq_true_eq,
          decide_eq_true_eq, Nat.lt_min]
        exact ⟨hahead, hlt, hmax⟩
      refine fresh_of_live hnow ?_
      simpa [Sweep.doomed, hcovers, hi] using hstays

/-- One round: the cursor moves on, and what holds of the pass goes on to hold. -/
theorem advance (h : Underway t bound (round.requests.length + n) cursor e)
    (admissible : round.Admissible t)
    (hnext : (e.sweep cursor round.budget round.now).1.next? = some next) :
    cursor < next ∧
      Underway t bound n next ((e.sweep cursor round.budget round.now).2.run round.requests).2 := by
  have hsweep := h.roomy.sound.steady_sweep cursor round.budget round.now
  have hsteady : Steady round.requests.length e
      ((e.sweep cursor round.budget round.now).2.run round.requests).2 := by
    simpa only [Nat.zero_add] using hsweep.trans (hsweep.sound.steady_run round.requests)
  have hpos := admissible.pos
  have hle := h.slotCount_le
  rw [next?_sweep h.roomy.slotCount_le_max] at hnext
  split at hnext
  · rename_i hlt
    cases hnext
    refine ⟨by omega, h.roomy.steady hsteady, ?_, by omega, ?_⟩
    · rw [hsteady.capacity_eq, h.bound_eq]
    · refine hsweep.sound.lives_run (h.fresh_sweep round.budget admissible.notBefore) _ ?_
      intro r hr k v ttl now hput i _ expiry _ _
      have hnow := admissible.requests r hr
      rw [hput] at hnow
      exact hnow
  · cases hnext

/-- The last batch leaves nothing to remove in any slot. -/
theorem last (h : Underway t bound n cursor e) {budget : Nat} {now : Instant} (hnow : t ≤ now)
    (hnext : (e.sweep cursor budget now).1.next? = none) :
    Lives (fun _ created ttl => Fresh t created ttl) (e.sweep cursor budget now).2.entryAt? := by
  rw [next?_sweep h.roomy.slotCount_le_max] at hnext
  split at hnext
  · cases hnext
  · rename_i hend
    intro i a hi
    have hlt := lt_slotCount hi
    rw [(h.roomy.sound.sweep cursor budget now).slotCount_eq] at hlt
    exact h.fresh_sweep budget hnow i a hi (by omega)

/-! ## Whole passes -/

/-- What holds of a pass cut short, of a last batch and of a batch before a pass holds of every pass
whose batches have room. -/
theorem induction
    {motive : Nat → List (Round K V) → List (Batch K V) × Option (Engine K V) → Prop}
    (stopped : ∀ {cursor}, cursor < bound → motive cursor [] ([], none))
    (last : ∀ {e cursor n round rest}, Underway t bound n cursor e → Round.Admissible t round →
      (e.sweep cursor round.budget round.now).1.next? = none →
      motive cursor (round :: rest)
        ([⟨e, round.now, (e.sweep cursor round.budget round.now).2⟩],
          some (e.sweep cursor round.budget round.now).2))
    (next : ∀ {e cursor n round next rest result}, Underway t bound n cursor e → cursor < next →
      motive next rest result →
      motive cursor (round :: rest)
        (result.map (⟨e, round.now, (e.sweep cursor round.budget round.now).2⟩ :: ·) id))
    (h : Underway t bound (requestCount rounds) cursor e)
    (admissible : ∀ round ∈ rounds, round.Admissible t) :
    motive cursor rounds (e.interleaved cursor rounds) := by
  induction rounds generalizing e cursor with
  | nil => exact stopped h.cursor_lt
  | cons round rest ih =>
    have hround := admissible round List.mem_cons_self
    cases hnext : (e.sweep cursor round.budget round.now).1.next? with
    | none =>
      rw [interleaved_last hnext]
      exact last h hround hnext
    | some goesOn =>
      obtain ⟨hmoved, hrest⟩ := h.advance hround hnext
      rw [interleaved_next hnext]
      exact next h hmoved (ih hrest fun r hr => admissible r (List.mem_cons_of_mem _ hr))

/-- Every batch but the last moves the cursor on, and it never reaches the bound. -/
theorem length_le (h : Underway t bound (requestCount rounds) cursor e)
    (admissible : ∀ round ∈ rounds, round.Admissible t) :
    (e.interleaved cursor rounds).1.length + cursor ≤ bound := by
  refine induction (motive := fun cursor _ pass => pass.1.length + cursor ≤ bound) ?_ ?_ ?_ h
    admissible
  · intro cursor hlt
    exact (Nat.zero_add cursor).symm ▸ Nat.le_of_lt hlt
  · intro e cursor n round rest h _ _
    exact (Nat.add_comm 1 cursor).symm ▸ h.cursor_lt
  · intro e cursor n round next rest pass _ hmoved ih
    simp only [Prod.map, List.length_cons]
    omega

theorem isSome_last (h : Underway t bound (requestCount rounds) cursor e)
    (admissible : ∀ round ∈ rounds, round.Admissible t) :
    bound ≤ rounds.length + cursor → (e.interleaved cursor rounds).2.isSome := by
  refine induction
    (motive := fun cursor rounds pass => bound ≤ rounds.length + cursor → pass.2.isSome)
    ?_ ?_ ?_ h admissible
  · intro cursor hlt enough
    rw [List.length_nil] at enough
    omega
  · intro e cursor n round rest _ _ _ _
    rfl
  · intro e cursor n round next rest pass _ hmoved ih enough
    rw [List.length_cons] at enough
    exact ih (by omega)

theorem fresh_last (h : Underway t bound (requestCount rounds) cursor e)
    (admissible : ∀ round ∈ rounds, round.Admissible t) :
    ∀ e' ∈ (e.interleaved cursor rounds).2,
      Lives (fun _ created ttl => Fresh t created ttl) e'.entryAt? := by
  refine induction
    (motive := fun _ _ pass => ∀ e' ∈ pass.2, Lives (fun _ created ttl => Fresh t created ttl)
      e'.entryAt?) ?_ ?_ ?_ h admissible
  · intro cursor _ e' he'
    cases he'
  · rintro e cursor n round rest h hround hnext e' ⟨⟩
    exact h.last hround.notBefore hnext
  · intro e cursor n round next rest pass _ _ ih
    exact ih

/-- Each batch of the pass is a batch on a sound engine. -/
theorem batch_swept (h : Underway t bound (requestCount rounds) cursor e)
    (admissible : ∀ round ∈ rounds, round.Admissible t) :
    ∀ b ∈ (e.interleaved cursor rounds).1, b.before.Sound ∧
      ∃ visited, Swept b.before (Sweep.doomed b.before.entryAt? b.now visited) b.after := by
  refine induction
    (motive := fun _ _ pass => ∀ b ∈ pass.1, b.before.Sound ∧
      ∃ visited, Swept b.before (Sweep.doomed b.before.entryAt? b.now visited) b.after)
    ?_ ?_ ?_ h admissible
  · intro cursor _ b hb
    cases hb
  · intro e cursor n round rest h _ _ b hb
    cases List.mem_singleton.1 hb
    exact ⟨h.roomy.sound, _, h.roomy.sound.sweep _ _ _⟩
  · intro e cursor n round next rest pass h _ ih b hb
    rcases List.mem_cons.1 hb with rfl | hb
    · exact ⟨h.roomy.sound, _, h.roomy.sound.sweep _ _ _⟩
    · exact ih b hb

end Underway

/-- A pass from any state that a run leaves ends within as many batches as there can be slots,
whatever is asked of the engine between the batches. What is left then had not expired when the pass
began, unless it is younger, and no batch takes away an entry that has not expired. -/
theorem interleaved_pass (policy : Policy) (capacity : Nat) (requests : List (Request K V))
    (t : Instant) (rounds : List (Round K V))
    (admissible : ∀ round ∈ rounds, round.Admissible t)
    (fits : min capacity (requests.length + requestCount rounds) + Lru.sentinels ≤ Word.max) :
    let pass := ((new policy capacity : Engine K V).run requests).2.interleaved 0 rounds
    pass.1.length ≤ capacity + 2 ∧ (capacity + 2 ≤ rounds.length → pass.2.isSome) ∧
      (∀ e ∈ pass.2, ∀ k a expiry, e.find? k = some a → a.expiresAt? = some expiry →
        expiry ≤ t → t ≤ a.createdAt) ∧
      ∀ b ∈ pass.1, ∀ k a, b.before.find? k = some a → a.isExpired b.now = false →
        b.after.find? k = some a := by
  intro pass
  have hroomy := Roomy.new (K := K) (V := V) policy fits
  have hsteady := hroomy.sound.steady_run requests
  have hunderway : Underway t (capacity + 2) (requestCount rounds) 0
      ((new policy capacity : Engine K V).run requests).2 := by
    refine ⟨hroomy.steady hsteady, ?_, Nat.succ_pos _,
      fun _ _ _ hlt => absurd hlt (Nat.not_lt_zero _)⟩
    rw [hsteady.capacity_eq, capacity_new]
    rfl
  refine ⟨hunderway.length_le admissible, hunderway.isSome_last admissible, ?_, ?_⟩
  · intro e he k a expiry hk
    obtain ⟨i, -, hi⟩ := exists_slot hk
    exact hunderway.fresh_last admissible e he i a hi expiry
  · intro b hb k a hk hlive
    obtain ⟨hsound, visited, hswept⟩ := hunderway.batch_swept admissible b hb
    exact hswept.find?_eq hsound hk fun i hi => by simp [Sweep.doomed, hi, hlive]

/-- Two entries, of which one has expired, and a clearing while the cursor is half way. -/
theorem interleaved_pass_cleared :
    let t : Instant := .ofMillis 5000
    let requests : List (Request Nat Nat) :=
      [.put 1 10 (.ofSecs 9) .origin, .put 2 20 (.ofSecs 1) .origin]
    let rounds : List (Round Nat Nat) :=
      [{ budget := 3, now := t, requests := [.get 1 t, .put 3 30 .zero t] },
        { budget := 1, now := .ofMillis 6000, requests := [.clear, .put 4 40 (.ofSecs 1) t] },
        { budget := 1, now := .ofMillis 6000, requests := [] },
        { budget := 1, now := .ofMillis 6000, requests := [] }]
    let pass := ((new .lru 2 : Engine Nat Nat).run requests).2.interleaved 0 rounds
    (∀ round ∈ rounds, round.Admissible t) ∧
      min 2 (requests.length + requestCount rounds) + Lru.sentinels ≤ Word.max ∧
      pass.1.length ≤ 2 + 2 ∧ (2 + 2 ≤ rounds.length → pass.2.isSome) ∧
      (∀ e ∈ pass.2, ∀ k a expiry, e.find? k = some a → a.expiresAt? = some expiry →
        expiry ≤ t → t ≤ a.createdAt) ∧
      ∀ b ∈ pass.1, ∀ k a, b.before.find? k = some a → a.isExpired b.now = false →
        b.after.find? k = some a :=
  ⟨by decide, by decide, interleaved_pass .lru 2 _ _ _ (by decide) (by decide)⟩

end Engine
end BoundedCache
