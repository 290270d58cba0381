import BoundedCache.Proofs.Engine.Purging
import BoundedCache.Proofs.Session.Staleness

/-! # What happens while time passes

Every run of the sweeper removes what has expired by then, so of all the runs that fall into a sleep only
the last one shows. Where the sleep is cut in two, the runs are shared out between the parts.
-/
namespace BoundedCache

namespace Sweeper
variable {w : Sweeper} {n time later : Nat}

theorem runsUpTo_of_lt (h : time < w.due) : w.runsUpTo time = 0 := by
  rw [runsUpTo, if_neg (Nat.not_le.2 h)]

theorem runsUpTo_of_le (h : w.due ≤ time) :
    w.runsUpTo time = (time - w.due) / w.interval + 1 := by
  rw [runsUpTo, if_pos h]

/-- So many runs are enough if the one after them is past the time. -/
theorem runsUpTo_le_iff (pos : 0 < w.interval) :
    w.runsUpTo time ≤ n ↔ time < w.due + n * w.interval := by
  rcases Nat.lt_or_ge time w.due with hlt | hge
  · rw [runsUpTo_of_lt hlt]
    exact iff_of_true (Nat.zero_le n) (Nat.lt_add_right _ hlt)
  · rw [runsUpTo_of_le hge, Nat.succ_le_iff, Nat.div_lt_iff_lt_mul pos]
    omega

/-- Runs up to a time and then up to a later one are the runs up to the later one. -/
theorem runsUpTo_add (pos : 0 < w.interval) (hle : time ≤ later) :
    w.runsUpTo time + (w.afterRuns (w.runsUpTo time)).runsUpTo later = w.runsUpTo later := by
  -- the runs that are left are told by what they are enough for, so no quotient is taken apart
  have hrest : ∀ n, (w.afterRuns (w.runsUpTo time)).runsUpTo later ≤ n ↔
      w.runsUpTo later ≤ w.runsUpTo time + n := by
    intro n
    have hleft : 0 < (w.afterRuns (w.runsUpTo time)).interval := pos
    rw [runsUpTo_le_iff hleft, runsUpTo_le_iff pos, afterRuns, Nat.add_mul, Nat.add_assoc]
  have hmono : w.runsUpTo time ≤ w.runsUpTo later := by
    rw [runsUpTo_le_iff pos]
    exact Nat.lt_of_le_of_lt hle ((runsUpTo_le_iff pos).1 (Nat.le_refl _))
  have hleast := (hrest _).1 (Nat.le_refl _)
  have henough := (hrest (w.runsUpTo later - w.runsUpTo time)).2 (by omega)
  omega

end Sweeper

namespace Session
variable {K V : Type} [DecidableEq K] {s : Session K V} {w : Sweeper} {n : Nat}

theorem ticks_add (s : Session K V) (m n : Nat) : (s.ticks m).ticks n = s.ticks (m + n) := by
  induction m generalizing s with
  | zero =>
    rw [Nat.zero_add]
    rfl
  | succ m ih =>
    cases hsweeper : s.sweeper? with
    | none => rw [ticks_of_none hsweeper, ticks_of_none hsweeper, ticks_of_none hsweeper]
    | some w =>
      rw [Nat.succ_add, ticks_succ hsweeper, ticks_succ hsweeper]
      exact ih _

/-- Each run has its own time, whatever the time is before. -/
theorem ticks_setNow (s : Session K V) (before after n : Nat) :
    { ({ s with now := before } : Session K V).ticks n with now := after } =
      { s.ticks n with now := after } := by
  cases n with
  | zero => rfl
  | succ n =>
    rcases Option.eq_none_or_eq_some s.sweeper? with hnone | ⟨w, hsome⟩
    · rw [ticks_of_none hnone, ticks_of_none (s := { s with now := before }) hnone]
    · rw [ticks_succ hsome, ticks_succ (s := { s with now := before }) hsome]

namespace KeepsUp

theorem purged_tick (h : KeepsUp n w s) :
    Engine.Purged s.instant s.cache.engine (s.tick w).cache.engine := by
  rw [h.engine_tick]
  exact h.roomy.sound.purged h.roomy.slotCount_le_max s.instant

/-- Of several runs on time, the last one is all that shows. -/
theorem purged_ticks (h : KeepsUp n w s) (m : Nat) :
    Engine.Purged (.ofMillis (w.due + w.interval * m)) s.cache.engine
      (s.ticks (m + 1)).cache.engine := by
  induction m generalizing s w with
  | zero =>
    rw [ticks_succ h.sweeper?_eq]
    exact (h.setNow w.due).purged_tick
  | succ m ih =>
    have htick := (h.setNow w.due).tick (Nat.le_refl _)
    rw [w.reschedule_due] at htick
    have hdue : (w.afterRuns 1).due + (w.afterRuns 1).interval * m =
        w.due + w.interval * (m + 1) := by
      simp only [Sweeper.afterRuns, Nat.one_mul, Nat.mul_succ]
      omega
    have hrest := ih htick
    rw [hdue] at hrest
    rw [ticks_succ h.sweeper?_eq]
    refine (h.setNow w.due).purged_tick.trans hrest ?_
    rw [Instant.le_iff_totalNanos_le, instant, Instant.totalNanos_ofMillis,
      Instant.totalNanos_ofMillis]
    exact Nat.mul_le_mul_right _ (Nat.le_add_right _ _)

/-- Two sleeps are one. -/
theorem sleep_sleep (h : KeepsUp n w s) (ahead : w.Ahead s.now) (a b : Nat) :
    (s.sleep a).sleep b = s.sleep (a + b) := by
  have hpos : 0 < w.interval := by
    have hlt := ahead.now_lt
    have hle := ahead.due_le
    omega
  have hslept : (s.sleep a).sweeper? = some (w.afterRuns (w.runsUpTo (s.now + a))) := by
    rw [sleep_of_some h.sweeper?_eq]
    exact (h.ticks _).sweeper?_eq
  have hruns := Sweeper.runsUpTo_add hpos (Nat.le_add_right (s.now + a) b)
  rw [sleep_of_some hslept, sleep_of_some h.sweeper?_eq, sleep_of_some h.sweeper?_eq]
  simp only
  rw [ticks_setNow, ticks_add, hruns, Nat.add_assoc]

/-- Nothing happens before the next run. -/
theorem sleep_of_lt (h : KeepsUp n w s) {ms : Nat} (early : s.now + ms < w.due) :
    s.sleep ms = s.jump ms := by
  rw [sleep_of_some h.sweeper?_eq, Sweeper.runsUpTo_of_lt early]
  rfl

theorem purged_sleep (h : KeepsUp n w s) {ms : Nat} (late : w.due ≤ s.now + ms) :
    Engine.Purged (.ofMillis (w.due + w.interval * ((s.now + ms - w.due) / w.interval)))
      s.cache.engine (s.sleep ms).cache.engine := by
  rw [sleep_of_some h.sweeper?_eq, Sweeper.runsUpTo_of_le late]
  exact h.purged_ticks _

/-- The run after the last one of a sleep is an interval later. -/
theorem sleep_of_le (h : KeepsUp n w s) {ms : Nat} (late : w.due ≤ s.now + ms) :
    KeepsUp n
      { w with due := w.due + w.interval * ((s.now + ms - w.due) / w.interval) + w.interval }
      (s.sleep ms) := by
  have hdue : w.afterRuns ((s.now + ms - w.due) / w.interval + 1) =
      { w with due := w.due + w.interval * ((s.now + ms - w.due) / w.interval) + w.interval } := by
    rw [Sweeper.afterRuns, Nat.succ_mul, Nat.mul_comm, Nat.add_assoc]
  rw [sleep_of_some h.sweeper?_eq, Sweeper.runsUpTo_of_le late, ← hdue]
  exact (h.ticks _).setNow _

end KeepsUp

/-- While an open cache sleeps, nothing happens before the sweeper's next run is due. A longer sleep
removes exactly what has expired by the last run that falls into it, whatever the runs before: all other
entries are left as they were, in their order and with their frequencies, and the run after it is due an
interval later. So two sleeps are one, for all that comes after them. -/
theorem run_sleep (config : Config) (valid : config.validate = .ok ())
    (onClock : (Instant.origin.add? config.sweepInterval).isSome) (script : List (Command K V))
    (fits : min config.capacity.toNat (requestCount script) + Lru.sentinels ≤ Word.max) :
    ∃ s₀ : Session K V, open? config true = .ok s₀ ∧
      let s := (s₀.run script).2
      s.cache.closed = false →
        ∃ w, s.sweeper? = some w ∧ w.interval = config.sweepIntervalSecs.toNat * 1000 ∧
          s.now < w.due ∧ (∀ ms, s.now + ms < w.due → s.sleep ms = s.jump ms) ∧
          (∀ ms, w.due ≤ s.now + ms →
            let last := w.due + w.interval * ((s.now + ms - w.due) / w.interval)
            let s' := s.sleep ms
            s'.now = s.now + ms ∧ s'.sweeper? = some { w with due := last + w.interval } ∧
              s'.cache.closed = false ∧
              (∀ k, s'.cache.engine.find? k =
                (s.cache.engine.find? k).filter fun a => !a.isExpired (.ofMillis last)) ∧
              (∀ i, s'.cache.engine.entryAt? i =
                (s.cache.engine.entryAt? i).filter fun a => !a.isExpired (.ofMillis last)) ∧
              ∀ f, ∃ as, s.cache.engine.order? f = some as ∧
                s'.cache.engine.order? f =
                  some (as.filter fun a => !a.isExpired (.ofMillis last))) ∧
          ∀ a b later, ((s.sleep a).sleep b).run later = (s.sleep (a + b)).run later := by
  refine ⟨_, open?_of_valid valid, ?_⟩
  intro s isOpen
  obtain ⟨w, hinterval, h, ahead⟩ := exists_keepsUp valid onClock fits isOpen
  refine ⟨w, h.sweeper?_eq, hinterval, ahead.now_lt, fun ms => h.sleep_of_lt, fun ms late => ?_,
    fun a b later => ?_⟩
  · intro last s'
    have hslept : KeepsUp 0 { w with due := last + w.interval } s' := h.sleep_of_le late
    have hpurged : Engine.Purged (.ofMillis last) s.cache.engine s'.cache.engine :=
      h.purged_sleep late
    obtain ⟨slots, hordered⟩ := h.roomy.sound.exists_ordered
    have hnow : s'.now = s.now + ms := congrArg Session.now (sleep_of_some h.sweeper?_eq ms)
    exact ⟨hnow, hslept.sweeper?_eq, hslept.isOpen, hpurged.find?_eq h.roomy.sound,
      hpurged.entryAt?_eq, fun f => ⟨_, hordered.order?_eq f, hpurged.order?_eq hordered f⟩⟩
  · rw [h.sleep_sleep ahead]

/-- Sleeps that end at a run and just before it, with an entry that has expired in between. -/
theorem run_sleep_twice :
    let config : Config := { capacity := 2, sweepIntervalSecs := 2 }
    let script : List (Command Nat Nat) :=
      [.call (.put 1 10 (.ofSecs 3)), .call (.put 2 20 (.ofSecs 9)), .sleep 500]
    config.validate = .ok () ∧ (Instant.origin.add? config.sweepInterval).isSome ∧
      min config.capacity.toNat (requestCount script) + Lru.sentinels ≤ Word.max ∧
      ∃ s₀ : Session Nat Nat, open? config true = .ok s₀ ∧
        let s := (s₀.run script).2
        s.cache.closed = false ∧ s.now = 500 ∧
          ((s.sleep 3499).cache.engine.find? 1).isSome ∧
          ((s.sleep 3500).cache.engine.find? 1).isSome = false ∧
          ((s.sleep 3500).cache.engine.find? 2).isSome ∧
          ((s.sleep 3499).sleep 1).run [.call (.get 1)] = (s.sleep 3500).run [.call (.get 1)] := by
  intro config script
  obtain ⟨s₀, hs₀, hsleep⟩ := run_sleep config rfl rfl script (by decide)
  cases (open?_of_valid rfl).symm.trans hs₀
  obtain ⟨w, hw, hinterval, -, -, hlate, htwice⟩ := hsleep (by decide)
  have hdue : w.due = 2000 :=
    Option.some.inj ((congrArg (Option.map Sweeper.due) hw).symm.trans (by decide))
  obtain ⟨-, -, -, hbefore, -⟩ := hlate 3499 (by rw [hdue]; decide)
  obtain ⟨-, -, -, hafter, -⟩ := hlate 3500 (by rw [hdue]; decide)
  rw [hdue, hinterval] at hbefore hafter
  refine ⟨rfl, rfl, by decide, opened config, hs₀, by decide, by decide, ?_, ?_, ?_, ?_⟩
  · rw [hbefore]
    decide
  · rw [hafter]
    decide
  · rw [hafter]
    decide
  · exact htwice 3499 1 [.call (.get 1)]

end Session
end BoundedCache
