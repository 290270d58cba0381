import BoundedCache.Proofs.Session.Soundness

/-! # How long an expired entry can stay

The sweeper's next run is never further away than an interval, and no entry expires more than an
interval before it. A run on time and a run that is late both leave it so, and so does an entry that
is put in between.
-/
namespace BoundedCache
variable {K V : Type}

theorem Config.totalNanos_sweepInterval (config : Config) :
    config.sweepInterval.totalNanos = config.sweepIntervalSecs.toNat * 1000 * 1000000 := by
  have hword : config.sweepIntervalSecs.toNat ≤ Word.max :=
    Nat.le_of_lt_succ config.sweepIntervalSecs.toNat_lt
  rw [sweepInterval, Duration.ofSecs, Duration.saturating_of_le hword]
  simp only [Duration.totalNanos]
  omega

namespace Sweeper
variable {w : Sweeper} {now time : Nat}

/-- The next run is still to come, and no further away than an interval. -/
structure Ahead (w : Sweeper) (now : Nat) : Prop where
  now_lt : now < w.due
  due_le : w.due ≤ now + w.interval

/-- A life that ends, if ever, no more than an interval before the next run. -/
def Reaches (w : Sweeper) (created : Instant) (ttl : Duration) : Prop :=
  ∀ expiry, created.add? ttl = some expiry →
    w.due * 1000000 ≤ expiry.totalNanos + w.interval * 1000000

/-- The sweeper after some runs on time. -/
def afterRuns (w : Sweeper) (n : Nat) : Sweeper := { w with due := w.due + n * w.interval }

theorem due_reschedule_le (h : w.due ≤ now) : (w.reschedule now).due ≤ now + w.interval := by
  simp only [reschedule]
  split <;> omega

theorem ahead_reschedule (long : tolerance < w.interval) (h : w.due ≤ now) :
    (w.reschedule now).Ahead now := by
  refine ⟨?_, due_reschedule_le h⟩
  simp only [reschedule]
  split <;> omega

theorem reschedule_due (w : Sweeper) : w.reschedule w.due = w.afterRuns 1 := by
  rw [reschedule, afterRuns, if_pos (Nat.le_add_right _ _), Nat.one_mul]

theorem afterRuns_afterRuns (w : Sweeper) (m n : Nat) :
    (w.afterRuns m).afterRuns n = w.afterRuns (m + n) := by
  simp only [afterRuns, Nat.add_mul, Nat.add_assoc]

/-- The runs that are due up to a time bring the next one past it. -/
theorem ahead_afterRuns (pos : 0 < w.interval) (h : w.Ahead now) (later : now ≤ time) :
    (w.afterRuns (w.runsUpTo time)).Ahead time := by
  have hdue := h.due_le
  rw [runsUpTo]
  split
  · -- the quotient is rounded down, and the run after so many intervals is the first one too late
    have hlt := Nat.lt_mul_div_succ (time - w.due) pos
    have hle := Nat.div_mul_le_self (time - w.due) w.interval
    have hmul := Nat.mul_comm w.interval ((time - w.due) / w.interval + 1)
    refine ⟨?_, ?_⟩ <;> simp only [afterRuns, Nat.succ_mul] at * <;> omega
  · refine ⟨?_, ?_⟩ <;> simp only [afterRuns, Nat.zero_mul, Nat.add_zero] <;> omega

end Sweeper

namespace Session
variable [DecidableEq K] {s s' : Session K V} {w : Sweeper} {interval n : Nat}

/-- An open session with a sweeper that keeps up: no entry expires more than an interval before the
next run, and words can count the slots even after so many more requests. -/
structure KeepsUp (n : Nat) (w : Sweeper) (s : Session K V) : Prop where
  sweeper?_eq : s.sweeper? = some w
  isOpen : s.cache.closed = false
  roomy : Engine.Roomy n s.cache.engine
  batch_pos : 1 ≤ w.batch
  reached : Lives (fun _ => w.Reaches) s.cache.engine.entryAt?

namespace KeepsUp

theorem setNow (h : KeepsUp n w s) (now : Nat) : KeepsUp n w { s with now } :=
  ⟨h.sweeper?_eq, h.isOpen, h.roomy, h.batch_pos, h.reached⟩

/-- A run removes whatever has expired, however large its batches are. -/
theorem engine_tick (h : KeepsUp n w s) :
    (s.tick w).cache.engine = (s.cache.engine.purge s.instant).2 := by
  rw [Session.tick, Cache.sweepAll_of_open h.isOpen,
    s.cache.engine.sweepAll_eq_purge s.instant h.roomy.slotCount_le_max h.batch_pos]

/-- What a run leaves has not expired, so it lives at least to the time of the run. -/
theorem tick (h : KeepsUp n w s) (due : w.due ≤ s.now) :
    KeepsUp n (w.reschedule s.now) (s.tick w) := by
  refine ⟨rfl, ?_, h.roomy.steady_zero (steady_tick h.roomy.sound w), h.batch_pos, ?_⟩
  · rw [closed_tick]
    exact h.isOpen
  · intro i a hi expiry hexpiry
    rw [h.engine_tick] at hi
    have hlive : ¬ expiry ≤ s.instant := by
      intro hle
      have hx : a.isExpired s.instant = true := Entry.isExpired_iff.2 ⟨expiry, hexpiry, hle⟩
      rw [h.roomy.sound.live_of_purge h.roomy.slotCount_le_max hi] at hx
      cases hx
    rw [Instant.le_iff_totalNanos_le, instant, Instant.totalNanos_ofMillis] at hlive
    have hdue := Sweeper.due_reschedule_le due
    -- the rescheduled run is within an interval of now, and the expiry is after now
    have hinterval : (w.reschedule s.now).interval = w.interval := rfl
    omega

/-- Runs on time, each at the moment when it is due. -/
theorem ticks (h : KeepsUp n w s) (m : Nat) : KeepsUp n (w.afterRuns m) (s.ticks m) := by
  induction m generalizing s w with
  | zero =>
    have hzero : w.afterRuns 0 = w := by rw [Sweeper.afterRuns, Nat.zero_mul, Nat.add_zero]
    rw [hzero]
    exact h
  | succ m ih =>
    have htick := (h.setNow w.due).tick (Nat.le_refl _)
    rw [w.reschedule_due] at htick
    rw [ticks_succ h.sweeper?_eq, Nat.add_comm, ← Sweeper.afterRuns_afterRuns]
    exact ih htick

/-- A request changes no life, and what it puts is created no earlier than now. -/
theorem asked (h : KeepsUp (1 + n) w s) (ahead : w.Ahead s.now) {r : Request K V}
    (notBefore : r.NotBefore s.instant) :
    KeepsUp n w (s.withEngine (s.cache.engine.step r).2) := by
  refine ⟨h.sweeper?_eq, h.isOpen, h.roomy.steady (h.roomy.sound.steady_step r), h.batch_pos, ?_⟩
  refine h.roomy.sound.lives_step h.reached r ?_
  rintro k v ttl now rfl i expiry hexpiry
  have hlived : s.instant ≤ expiry := Instant.le_trans notBefore (Instant.le_add? hexpiry)
  rw [Instant.le_iff_totalNanos_le, instant, Instant.totalNanos_ofMillis] at hlived
  calc w.due * 1000000
      ≤ (s.now + w.interval) * 1000000 := Nat.mul_le_mul_right _ ahead.due_le
    _ = s.now * 1000000 + w.interval * 1000000 := Nat.add_mul _ _ _
    _ ≤ expiry.totalNanos + w.interval * 1000000 := Nat.add_le_add_right hlived _

end KeepsUp

/-- A session that is closed, or whose sweeper keeps up and has its next run ahead. -/
inductive Punctual (interval n : Nat) (s : Session K V) : Prop
  | shut (closed : s.cache.closed = true)
  | running (w : Sweeper) (interval_eq : w.interval = interval) (keepsUp : KeepsUp n w s)
      (ahead : w.Ahead s.now)

namespace Punctual

theorem served (h : Punctual interval (1 + n) s) (hserved : Served s s') :
    Punctual interval n s' := by
  cases hserved with
  | same =>
    cases h with
    | shut hclosed => exact .shut hclosed
    | running w hinterval h hahead =>
      refine .running w hinterval ?_ hahead
      exact ⟨h.sweeper?_eq, h.isOpen, h.roomy.steady (h.roomy.sound.steady 1), h.batch_pos,
        h.reached⟩
  | closing => exact .shut s.closed_startClose
  | asked r hnow hopen =>
    cases h with
    | shut hclosed =>
      rw [hopen] at hclosed
      cases hclosed
    | running w hinterval h hahead => exact .running w hinterval (h.asked hahead hnow) hahead

theorem calls (cs : List (Call K V)) (h : Punctual interval (cs.length + n) s) :
    Punctual interval n (s.calls cs).2 := by
  induction cs generalizing s with
  | nil => exact (Nat.zero_add n) ▸ h
  | cons c rest ih =>
    rw [List.length_cons, Nat.add_comm rest.length, Nat.add_assoc] at h
    exact ih (h.served (s.served_call c))

theorem finishClose (h : Punctual interval n s) : Punctual interval n s.finishClose := by
  cases h with
  | shut hclosed => exact .shut (s.closed_finishClose.trans hclosed)
  | running w hinterval h hahead =>
    rw [finishClose_of_open h.isOpen]
    exact .running w hinterval h hahead

theorem advance (long : Sweeper.tolerance < interval) (h : Punctual interval n s) (ms : Nat) :
    Punctual interval n (s.advance ms) := by
  cases h with
  | shut hclosed => exact .shut ((s.closed_advance ms).trans hclosed)
  | running w hinterval h hahead =>
    have hjump : KeepsUp n w (s.jump ms) := h.setNow _
    rw [advance_of_some h.sweeper?_eq]
    split
    · rename_i hdue
      exact .running (w.reschedule (s.now + ms)) hinterval (hjump.tick hdue)
        (Sweeper.ahead_reschedule (hinterval.symm ▸ long) hdue)
    · rename_i hdue
      have hle := hahead.due_le
      refine .running w hinterval hjump ⟨Nat.lt_of_not_le hdue, ?_⟩
      simp only [jump]
      omega

theorem sleep (pos : 0 < interval) (h : Punctual interval n s) (ms : Nat) :
    Punctual interval n (s.sleep ms) := by
  cases h with
  | shut hclosed => exact .shut ((s.closed_sleep ms).trans hclosed)
  | running w hinterval h hahead =>
    rw [sleep_of_some h.sweeper?_eq]
    exact .running (w.afterRuns _) hinterval ((h.ticks _).setNow _)
      (Sweeper.ahead_afterRuns (hinterval.symm ▸ pos) hahead (Nat.le_add_right _ _))

theorem step (long : Sweeper.tolerance < interval) (c : Command K V)
    (h : Punctual interval (c.requestCount + n) s) : Punctual interval n (s.step c).2 := by
  cases c with
  | call c => exact (h.served (s.served_call c)).finishClose
  | tasks cs => exact (calls cs h).finishClose
  | advance ms =>
    rw [Command.requestCount, Nat.zero_add] at h
    exact h.advance long ms
  | sleep ms =>
    rw [Command.requestCount, Nat.zero_add] at h
    exact h.sleep (Nat.zero_lt_of_lt long) ms
  | advanceClose ms =>
    have hshut : Punctual interval n (s.jump ms).startClose := .shut (s.jump ms).closed_startClose
    exact hshut.finishClose

theorem run (long : Sweeper.tolerance < interval) (script : List (Command K V))
    (h : Punctual interval (requestCount script) s) : Punctual interval 0 (s.run script).2 := by
  induction script generalizing s with
  | nil => exact h
  | cons c rest ih => exact ih (h.step long c)

end Punctual

theorem punctual_opened {config : Config} (valid : config.validate = .ok ())
    (onClock : (Instant.origin.add? config.sweepInterval).isSome)
    (fits : min config.capacity.toNat n + Lru.sentinels ≤ Word.max) :
    Punctual (config.sweepIntervalSecs.toNat * 1000) n (opened config : Session K V) := by
  have hpos := Word.one_le_toNat (Config.validate_eq_ok_iff.1 valid).2.1
  refine .running (.first config) rfl ?_ ⟨Nat.mul_pos hpos (by decide), Nat.le_add_left _ _⟩
  have hbatch := Word.one_le_toNat (Config.validate_eq_ok_iff.1 valid).2.2
  refine ⟨Sweeper.start?_of_onClock onClock, rfl, .new _ fits, hbatch, ?_⟩
  intro i a hi
  rw [opened, Cache.new, Engine.entryAt?_new] at hi
  cases hi

/-- Wherever a script leaves a cache open, the sweeper keeps up and has its next run ahead. -/
theorem exists_keepsUp {config : Config} (valid : config.validate = .ok ())
    (onClock : (Instant.origin.add? config.sweepInterval).isSome) {script : List (Command K V)}
    (fits : min config.capacity.toNat (requestCount script) + Lru.sentinels ≤ Word.max)
    (isOpen : ((opened config : Session K V).run script).2.cache.closed = false) :
    ∃ w : Sweeper, w.interval = config.sweepIntervalSecs.toNat * 1000 ∧
      KeepsUp 0 w ((opened config : Session K V).run script).2 ∧
      w.Ahead ((opened config : Session K V).run script).2.now := by
  have long : Sweeper.tolerance < config.sweepIntervalSecs.toNat * 1000 := by
    have hpos := Word.one_le_toNat (Config.validate_eq_ok_iff.1 valid).2.1
    rw [Sweeper.tolerance]
    omega
  cases (punctual_opened valid onClock fits : Punctual _ _ (opened config : Session K V)).run long
    script with
  | shut hclosed =>
    rw [isOpen] at hclosed
    cases hclosed
  | running w hinterval h ahead => exact ⟨w, hinterval, h, ahead⟩

/-- While a cache is open, its sweeper's next run is ahead and no more than an interval away, and no
entry stays for an interval after it has expired. -/
theorem run_staleness (config : Config) (valid : config.validate = .ok ())
    (onClock : (Instant.origin.add? config.sweepInterval).isSome) (script : List (Command K V))
    (fits : min config.capacity.toNat (requestCount script) + Lru.sentinels ≤ Word.max) :
    ∃ s₀ : Session K V, open? config true = .ok s₀ ∧
      let s := (s₀.run script).2
      s.cache.closed = false →
        ∃ w, s.sweeper? = some w ∧ s.now < w.due ∧
          w.due ≤ s.now + config.sweepIntervalSecs.toNat * 1000 ∧
          ∀ k a expiry, s.cache.engine.find? k = some a → a.expiresAt? = some expiry →
            s.instant.totalNanos < expiry.totalNanos + config.sweepInterval.totalNanos := by
  refine ⟨_, open?_of_valid valid, ?_⟩
  intro s isOpen
  obtain ⟨w, hinterval, h, ahead⟩ := exists_keepsUp valid onClock fits isOpen
  refine ⟨w, h.sweeper?_eq, ahead.now_lt, hinterval ▸ ahead.due_le, ?_⟩
  intro k a expiry hk hexpiry
  obtain ⟨i, -, hi⟩ := Engine.exists_slot hk
  rw [instant, Instant.totalNanos_ofMillis, Config.totalNanos_sweepInterval, ← hinterval]
  calc s.now * 1000000
      < w.due * 1000000 := Nat.mul_lt_mul_of_pos_right ahead.now_lt (by decide)
    _ ≤ expiry.totalNanos + w.interval * 1000000 := h.reached i a hi expiry hexpiry

/-- A run that is late, and an entry put after it that has expired at once and still waits for the
next run. -/
theorem run_staleness_late :
    let config : Config := { capacity := 2, sweepIntervalSecs := 2 }
    let script : List (Command Nat Nat) :=
      [.call (.put 1 10 (.ofSecs 1)), .advance 2700, .call (.put 2 20 .zero), .sleep 1000]
    config.validate = .ok () ∧ (Instant.origin.add? config.sweepInterval).isSome ∧
      min config.capacity.toNat (requestCount script) + Lru.sentinels ≤ Word.max ∧
      ∃ s₀ : Session Nat Nat, open? config true = .ok s₀ ∧
        let s := (s₀.run script).2
        s.cache.closed = false ∧ s.cache.contains 1 = false ∧ s.cache.contains 2 = true ∧
          ∃ w, s.sweeper? = some w ∧ s.now < w.due ∧
            w.due ≤ s.now + config.sweepIntervalSecs.toNat * 1000 ∧
            ∀ k a expiry, s.cache.engine.find? k = some a → a.expiresAt? = some expiry →
              s.instant.totalNanos < expiry.totalNanos + config.sweepInterval.totalNanos := by
  intro config script
  obtain ⟨s₀, hs₀, hstale⟩ := run_staleness config rfl rfl script (by decide)
  cases (open?_of_valid rfl).symm.trans hs₀
  exact ⟨rfl, rfl, by decide, opened config, hs₀, by decide, by decide, by decide,
    hstale (by decide)⟩

end Session
end BoundedCache
