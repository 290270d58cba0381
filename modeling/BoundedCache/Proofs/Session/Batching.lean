import BoundedCache.Proofs.Session.Soundness

/-! # No script tells how many slots a batch visits

Two sessions that differ in their sweepers' batches only go through any script side by side: each
run of the sweeper leaves both with one and the same cache.
-/
namespace BoundedCache
variable {K V : Type} [DecidableEq K]

theorem Config.validate_batch (config : Config) {batch batch' : UInt64} (pos : batch ≠ 0)
    (pos' : batch' ≠ 0) :
    { config with sweepBatch := batch' }.validate =
      { config with sweepBatch := batch }.validate := by
  rw [validate, validate, require_of pos, require_of pos']

namespace Session

/-- Sessions that differ at most in how many slots their sweepers visit in a batch, and all their
batches visit one at least. -/
inductive Alike : Session K V → Session K V → Prop
  | swept (cache : Cache K V) (now : Nat) (w : Sweeper) (batch : Nat) (pos : 1 ≤ w.batch)
      (pos' : 1 ≤ batch) : Alike ⟨cache, some w, now⟩ ⟨cache, some { w with batch }, now⟩
  | unswept (cache : Cache K V) (now : Nat) : Alike ⟨cache, none, now⟩ ⟨cache, none, now⟩

namespace Alike
variable {s s' : Session K V} {cache : Cache K V} {now n : Nat} {w : Sweeper} {batch : Nat}

omit [DecidableEq K] in
theorem startClose (h : Alike s s') : Alike s.startClose s'.startClose := by
  cases h with
  | swept cache now w batch pos pos' =>
    simp only [Session.startClose]
    split <;> exact .swept _ now w batch pos pos'
  | unswept cache now =>
    simp only [Session.startClose]
    split <;> exact .unswept _ now

omit [DecidableEq K] in
theorem finishClose (h : Alike s s') : Alike s.finishClose s'.finishClose := by
  cases h with
  | swept cache now w batch pos pos' =>
    simp only [Session.finishClose]
    split
    · exact .unswept _ now
    · exact .swept cache now w batch pos pos'
  | unswept cache now =>
    simp only [Session.finishClose, ite_self]
    exact .unswept cache now

omit [DecidableEq K] in
theorem close (h : Alike s s') : Alike s.close s'.close := h.startClose.finishClose

theorem call (h : Alike s s') (c : Call K V) :
    (s'.call c).1 = (s.call c).1 ∧ Alike (s.call c).2 (s'.call c).2 := by
  cases c with
  | close => exact ⟨rfl, h.startClose⟩
  | _ =>
    cases h with
    | swept cache now w batch pos pos' => exact ⟨rfl, .swept _ _ w batch pos pos'⟩
    | unswept cache now => exact ⟨rfl, .unswept _ _⟩

theorem calls (h : Alike s s') (cs : List (Call K V)) :
    (s'.calls cs).1 = (s.calls cs).1 ∧ Alike (s.calls cs).2 (s'.calls cs).2 := by
  induction cs generalizing s s' with
  | nil => exact ⟨rfl, h⟩
  | cons c rest ih =>
    obtain ⟨hreply, hcall⟩ := h.call c
    obtain ⟨hreplies, hrest⟩ := ih hcall
    exact ⟨congrArg₂ List.cons hreply hreplies, hrest⟩

omit [DecidableEq K] in
theorem now_eq (h : Alike s s') : s'.now = s.now := by
  cases h <;> rfl

omit [DecidableEq K] in
theorem setNow (h : Alike s s') (now : Nat) : Alike { s with now } { s' with now } := by
  cases h with
  | swept cache _ w batch pos pos' => exact .swept cache now w batch pos pos'
  | unswept cache _ => exact .unswept cache now

theorem tick (fits : cache.engine.slotCount ≤ Word.max) (pos : 1 ≤ w.batch) (pos' : 1 ≤ batch) :
    Alike (Session.tick ⟨cache, some w, now⟩ w)
      (Session.tick ⟨cache, some { w with batch }, now⟩ { w with batch }) := by
  rw [Session.tick, Session.tick, instant, instant,
    cache.sweepAll_congr (.ofMillis now) fits pos pos']
  exact .swept _ _ (w.reschedule now) batch pos pos'

theorem ticks (h : Alike s s') (room : Engine.Roomy n s.cache.engine) (m : Nat) :
    Alike (s.ticks m) (s'.ticks m) := by
  induction m generalizing s s' with
  | zero => exact h
  | succ m ih =>
    cases h with
    | swept cache now w batch pos pos' =>
      have hroom := room.steady_zero (steady_tick (s := ⟨cache, some w, w.due⟩) room.sound w)
      rw [ticks_succ rfl, ticks_succ rfl]
      exact ih (tick room.slotCount_le_max pos pos') hroom
    | unswept cache now => exact .unswept _ _

theorem advance (h : Alike s s') (fits : s.cache.engine.slotCount ≤ Word.max) (ms : Nat) :
    Alike (s.advance ms) (s'.advance ms) := by
  cases h with
  | swept cache now w batch pos pos' =>
    rw [advance_of_some rfl, advance_of_some rfl]
    split
    · exact tick fits pos pos'
    · exact .swept _ _ w batch pos pos'
  | unswept cache now => exact .unswept _ _

/-- Both sweepers are due at the same times, so they make the same number of runs. -/
theorem sleep (h : Alike s s') (room : Engine.Roomy n s.cache.engine) (ms : Nat) :
    Alike (s.sleep ms) (s'.sleep ms) := by
  cases h with
  | swept cache now w batch pos pos' =>
    rw [sleep_of_some rfl, sleep_of_some rfl]
    exact (ticks (.swept cache now w batch pos pos') room (w.runsUpTo (now + ms))).setNow _
  | unswept cache now => exact .unswept _ _

theorem step (h : Alike s s') (room : Engine.Roomy n s.cache.engine) (c : Command K V) :
    (s'.step c).1 = (s.step c).1 ∧ Alike (s.step c).2 (s'.step c).2 := by
  cases c with
  | call c =>
    obtain ⟨hreply, hcall⟩ := h.call c
    exact ⟨congrArg Outcome.reply hreply, hcall.finishClose⟩
  | tasks cs =>
    obtain ⟨hreplies, hcalls⟩ := h.calls cs
    exact ⟨congrArg Outcome.replies hreplies, hcalls.finishClose⟩
  | advance ms =>
    have hadvance := h.advance room.slotCount_le_max ms
    exact ⟨congrArg Outcome.clock hadvance.now_eq, hadvance⟩
  | sleep ms =>
    have hsleep := h.sleep room ms
    exact ⟨congrArg Outcome.clock hsleep.now_eq, hsleep⟩
  | advanceClose ms =>
    have hjump : Alike (s.jump ms) (s'.jump ms) := by
      rw [jump, jump, h.now_eq]
      exact h.setNow _
    exact ⟨congrArg Outcome.clock hjump.close.now_eq, hjump.close⟩

theorem run (h : Alike s s') (script : List (Command K V))
    (room : Engine.Roomy (requestCount script) s.cache.engine) :
    (s'.run script).1 = (s.run script).1 ∧ Alike (s.run script).2 (s'.run script).2 := by
  induction script generalizing s s' with
  | nil => exact ⟨rfl, h⟩
  | cons c rest ih =>
    obtain ⟨houtcome, hstep⟩ := h.step room c
    obtain ⟨houtcomes, hrest⟩ := ih hstep (room.steady (steady_step room.sound c))
    exact ⟨congrArg₂ List.cons houtcome houtcomes, hrest⟩

end Alike

/-- What a cache of a configuration answers to a script, or why it cannot be opened. -/
def outcomes (config : Config) (runtime : Bool) (script : List (Command K V)) :
    Except CacheError (List (Outcome V)) :=
  (open? config runtime).map fun s => (s.run script).1

omit [DecidableEq K] in
theorem alike_opened (config : Config) {batch batch' : UInt64} (pos : batch ≠ 0)
    (pos' : batch' ≠ 0) :
    Alike (opened { config with sweepBatch := batch } : Session K V)
      (opened { config with sweepBatch := batch' }) := by
  cases hfirst : (Instant.origin.add? config.sweepInterval).isSome with
  | true =>
    have hstart : Sweeper.start? { config with sweepBatch := batch } = some (.first _) :=
      Sweeper.start?_of_onClock hfirst
    have hstart' : Sweeper.start? { config with sweepBatch := batch' } = some (.first _) :=
      Sweeper.start?_of_onClock hfirst
    rw [opened, opened, hstart, hstart']
    exact .swept _ _ (.first _) _ (Word.one_le_toNat pos) (Word.one_le_toNat pos')
  | false =>
    have hstart : Sweeper.start? { config with sweepBatch := batch } = none :=
      Sweeper.start?_of_offClock hfirst
    have hstart' : Sweeper.start? { config with sweepBatch := batch' } = none :=
      Sweeper.start?_of_offClock hfirst
    rw [opened, opened, hstart, hstart']
    exact .unswept _ _

theorem outcomes_batch (config : Config) {batch batch' : UInt64} (pos : batch ≠ 0)
    (pos' : batch' ≠ 0) (runtime : Bool) (script : List (Command K V))
    (fits : min config.capacity.toNat (requestCount script) + Lru.sentinels ≤ Word.max) :
    outcomes { config with sweepBatch := batch' } runtime script =
      outcomes { config with sweepBatch := batch } runtime script := by
  have hvalidate := config.validate_batch pos pos'
  cases hvalid : { config with sweepBatch := batch }.validate with
  | error fault =>
    rw [outcomes, outcomes, open?, open?, hvalidate, hvalid]
    rfl
  | ok _ =>
    cases runtime with
    | false =>
      rw [outcomes, outcomes, open?, open?, hvalidate, hvalid]
      rfl
    | true =>
      rw [outcomes, outcomes, open?_of_valid hvalid, open?_of_valid (hvalidate.trans hvalid)]
      have halike := alike_opened (K := K) (V := V) config pos pos'
      exact congrArg Except.ok (halike.run script (.new _ fits)).1

/-- Batches of any budgets, each from where the one before stopped, end and do exactly what one pass
does, and so no script tells which batches a cache's sweeper makes. -/
theorem batching_unobservable :
    (∀ (policy : Policy) (capacity : Nat) (requests : List (Request K V)) (now : Instant)
        (budgets : Nat → Nat), (∀ i, 1 ≤ budgets i) →
      min capacity requests.length + Lru.sentinels ≤ Word.max →
      let e := ((Engine.new policy capacity : Engine K V).run requests).2
      Sweep.chain (Engine.sweepAt now) 0 e ((List.range (e.slotCount + 1)).map budgets) =
        some (e.purge now)) ∧
    ∀ (config : Config) (batch batch' : UInt64) (runtime : Bool) (script : List (Command K V)),
      batch ≠ 0 → batch' ≠ 0 →
      min config.capacity.toNat (requestCount script) + Lru.sentinels ≤ Word.max →
      outcomes { config with sweepBatch := batch' } runtime script =
        outcomes { config with sweepBatch := batch } runtime script := by
  refine ⟨?_, ?_⟩
  · intro policy capacity requests now budgets pos fits e
    have hroomy : Engine.Roomy requests.length (Engine.new policy capacity : Engine K V) :=
      .new policy fits
    have hrun : Engine.Roomy 0 e := hroomy.steady (hroomy.sound.steady_run requests)
    refine e.chain_sweepAt now hrun.slotCount_le_max ?_ ?_
    · intro b hb
      obtain ⟨i, -, rfl⟩ := List.mem_map.1 hb
      exact pos i
    · rw [List.length_map, List.length_range]
      exact Nat.lt_succ_self _
  · intro config batch batch' runtime script pos pos' fits
    exact outcomes_batch config pos pos' runtime script fits

/-- Growing budgets over two expired entries and a live one, and batches of one slot in place of
many. -/
theorem batching_unobservable_growing :
    let requests : List (Request Nat Nat) :=
      [.put 1 10 (.ofSecs 1) .origin, .put 2 20 (.ofSecs 9) .origin, .put 3 30 .zero .origin]
    let e := ((Engine.new .lru 3 : Engine Nat Nat).run requests).2
    let budgets : Nat → Nat := fun i => i + 1
    let config : Config := { policy := .lfu, capacity := 2 }
    let script : List (Command Nat Nat) :=
      [.call (.put 1 10 .zero), .call (.put 2 20 (.ofSecs 9)), .advance 1500, .call .size]
    (∀ i, 1 ≤ budgets i) ∧ min 3 requests.length + Lru.sentinels ≤ Word.max ∧
      min config.capacity.toNat (requestCount script) + Lru.sentinels ≤ Word.max ∧
      (e.purge (.ofMillis 5000)).1 = 2 ∧
      Sweep.chain (Engine.sweepAt (.ofMillis 5000)) 0 e
        ((List.range (e.slotCount + 1)).map budgets) = some (e.purge (.ofMillis 5000)) ∧
      outcomes { config with sweepBatch := 1 } true script =
        outcomes { config with sweepBatch := 256 } true script :=
  ⟨fun i => Nat.succ_pos i, by decide, by decide, by decide,
    batching_unobservable.1 .lru 3 _ _ _ (fun i => Nat.succ_pos i) (by decide),
    batching_unobservable.2 _ 256 1 true _ (by decide) (by decide) (by decide)⟩

end Session
end BoundedCache
