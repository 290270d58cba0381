import BoundedCache.Proofs.Cache
import BoundedCache.Session.Run

/-! # What every script keeps of a session -/
namespace BoundedCache
variable {K V : Type}

theorem Config.validate_eq_ok_iff {c : Config} :
    c.validate = .ok () ↔ c.capacity ≠ 0 ∧ c.sweepIntervalSecs ≠ 0 ∧ c.sweepBatch ≠ 0 := by
  rw [validate, require_bind_eq_ok_iff, require_bind_eq_ok_iff, require_eq_ok_iff]

namespace Sweeper

/-- The sweeper of a cache that was just opened. -/
def first (config : Config) : Sweeper :=
  { interval := config.sweepIntervalSecs.toNat * 1000
    batch := config.sweepBatch.toNat
    due := config.sweepIntervalSecs.toNat * 1000 }

theorem start?_of_onClock {config : Config}
    (onClock : (Instant.origin.add? config.sweepInterval).isSome = true) :
    start? config = some (first config) := by
  obtain ⟨due, hdue⟩ := Option.isSome_iff_exists.1 onClock
  rw [start?, hdue]
  rfl

theorem start?_of_offClock {config : Config}
    (offClock : (Instant.origin.add? config.sweepInterval).isSome = false) :
    start? config = none := by
  rw [start?, Option.isSome_eq_false_iff.1 offClock |> Option.isNone_iff_eq_none.1]
  rfl

end Sweeper

/-- How many requests of the engine a command makes at the most. -/
def Command.requestCount : Command K V → Nat
  | .call _ | .advanceClose _ => 1
  | .tasks cs => cs.length
  | .advance _ | .sleep _ => 0

namespace Session

/-- The session of a configuration that can be used. -/
def opened (config : Config) : Session K V :=
  { cache := .new config.policy config.capacity.toNat, sweeper? := Sweeper.start? config, now := 0 }

theorem open?_of_valid {config : Config} (valid : config.validate = .ok ()) :
    open? config true = .ok (opened config : Session K V) := by
  rw [open?, valid]
  rfl

/-- The session with another engine in its cache. -/
def withEngine (s : Session K V) (e : Engine K V) : Session K V :=
  { s with cache := { s.cache with engine := e } }

/-- How many requests of the engine a script makes at the most. -/
def requestCount : List (Command K V) → Nat
  | [] => 0
  | c :: rest => c.requestCount + requestCount rest

variable {s s' : Session K V} {w : Sweeper}

/-! ## Closing, and closed sessions -/

theorem startClose_of_closed (h : s.cache.closed = true) : s.startClose = s := by
  rw [startClose, if_pos h]

theorem finishClose_of_open (h : s.cache.closed = false) : s.finishClose = s := by
  rw [finishClose, if_neg (Bool.eq_false_iff.1 h)]

theorem closed_startClose (s : Session K V) : s.startClose.cache.closed = true := by
  rw [startClose]
  split
  · assumption
  · cases s.sweeper? <;> rfl

theorem closed_finishClose (s : Session K V) : s.finishClose.cache.closed = s.cache.closed := by
  rw [finishClose]
  split
  · cases s.sweeper? <;> rfl
  · rfl

theorem engine_startClose (s : Session K V) :
    s.startClose.cache.engine = s.cache.engine ∨
      s.startClose.cache.engine = s.cache.engine.clear := by
  rw [startClose]
  split
  · exact .inl rfl
  · cases s.sweeper? with
    | some w => exact .inl rfl
    | none => exact .inr rfl

theorem engine_finishClose (s : Session K V) :
    s.finishClose.cache.engine = s.cache.engine ∨
      s.finishClose.cache.engine = s.cache.engine.clear := by
  rw [finishClose]
  split
  · cases s.sweeper? with
    | some w => exact .inr rfl
    | none => exact .inl rfl
  · exact .inl rfl

theorem after_whenOpen_of_closed {α : Type} (hclosed : s.cache.closed = true)
    (act : Engine K V → Except CacheError α × Engine K V)
    (reply : Except CacheError α → Reply V) :
    s.after reply (s.cache.whenOpen act) = (reply (.error .closed), s) := by
  rw [Cache.whenOpen_of_closed hclosed, after]

variable [DecidableEq K]

/-! ## What calls leave -/

/-- What a call can leave of a session: all of it, one that is being closed, or one whose engine has
had a request. -/
inductive Served (s : Session K V) : Session K V → Prop
  | same : Served s s
  | closing : Served s s.startClose
  | asked (r : Request K V) (notBefore : r.NotBefore s.instant) (isOpen : s.cache.closed = false) :
      Served s (s.withEngine (s.cache.engine.step r).2)

theorem served_whenOpen {α : Type} {act : Engine K V → Except CacheError α × Engine K V}
    (r : Request K V) (notBefore : r.NotBefore s.instant)
    (hact : (act s.cache.engine).2 = (s.cache.engine.step r).2)
    (reply : Except CacheError α → Reply V) :
    Served s (s.after reply (s.cache.whenOpen act)).2 := by
  cases hclosed : s.cache.closed with
  | true =>
    rw [after_whenOpen_of_closed hclosed]
    exact .same
  | false =>
    rw [Cache.whenOpen_of_open hclosed, hact]
    exact .asked r notBefore hclosed

theorem served_call (s : Session K V) (c : Call K V) : Served s (s.call c).2 := by
  have hnow : s.instant ≤ s.instant := Instant.le_iff_totalNanos_le.2 (Nat.le_refl _)
  cases c with
  | get k => exact served_whenOpen (.get k s.instant) hnow rfl _
  | put k v ttl => exact served_whenOpen (.put k v ttl s.instant) hnow rfl _
  | putFor k v amount unit =>
    exact served_whenOpen (.put k v (unit.toDuration amount) s.instant) hnow rfl _
  | remove k => exact served_whenOpen (.remove k) trivial rfl _
  | clear => exact served_whenOpen .clear trivial rfl _
  | close => exact .closing
  | contains | size | isEmpty | policy | capacity | isClosed | check => exact .same

/-! ## How the clock moves -/

theorem advance_of_none (h : s.sweeper? = none) (ms : Nat) : s.advance ms = s.jump ms := by
  rw [advance]
  simp only [jump, h]

theorem advance_of_some (h : s.sweeper? = some w) (ms : Nat) :
    s.advance ms = if w.due ≤ s.now + ms then (s.jump ms).tick w else s.jump ms := by
  rw [advance]
  simp only [jump, h]

theorem sleep_of_none (h : s.sweeper? = none) (ms : Nat) : s.sleep ms = s.jump ms := by
  rw [sleep]
  simp only [jump, h]

theorem sleep_of_some (h : s.sweeper? = some w) (ms : Nat) :
    s.sleep ms = { s.ticks (w.runsUpTo (s.now + ms)) with now := s.now + ms } := by
  rw [sleep]
  simp only [h]

theorem ticks_of_none (h : s.sweeper? = none) (n : Nat) : s.ticks n = s := by
  cases n with
  | zero => rfl
  | succ n =>
    rw [ticks]
    simp only [h]

theorem ticks_succ (h : s.sweeper? = some w) (n : Nat) :
    s.ticks (n + 1) = ({ s with now := w.due }.tick w).ticks n := by
  rw [ticks]
  simp only [h]

theorem closed_tick (s : Session K V) (w : Sweeper) :
    (s.tick w).cache.closed = s.cache.closed :=
  s.cache.closed_sweepAll w.batch s.instant

theorem closed_ticks (s : Session K V) (n : Nat) : (s.ticks n).cache.closed = s.cache.closed := by
  induction n generalizing s with
  | zero => rfl
  | succ n ih =>
    cases hsweeper : s.sweeper? with
    | none => rw [ticks_of_none hsweeper]
    | some w => rw [ticks_succ hsweeper, ih, closed_tick]

theorem closed_advance (s : Session K V) (ms : Nat) :
    (s.advance ms).cache.closed = s.cache.closed := by
  cases hsweeper : s.sweeper? with
  | none =>
    rw [advance_of_none hsweeper]
    rfl
  | some w =>
    rw [advance_of_some hsweeper]
    split
    · exact (s.jump ms).closed_tick w
    · rfl

theorem closed_sleep (s : Session K V) (ms : Nat) :
    (s.sleep ms).cache.closed = s.cache.closed := by
  cases hsweeper : s.sweeper? with
  | none =>
    rw [sleep_of_none hsweeper]
    rfl
  | some w =>
    rw [sleep_of_some hsweeper]
    exact s.closed_ticks _

/-! ## Sound engines -/

theorem steady_startClose (h : s.cache.engine.Sound) :
    Engine.Steady 1 s.cache.engine s.startClose.cache.engine := by
  rcases s.engine_startClose with hsame | hclear
  · rw [hsame]
    exact h.steady 1
  · rw [hclear]
    exact h.steady_step .clear

/-- What is left to do of closing takes no new slot. -/
theorem steady_finishClose (h : s.cache.engine.Sound) :
    Engine.Steady 0 s.cache.engine s.finishClose.cache.engine := by
  rcases s.engine_finishClose with hsame | hclear
  · rw [hsame]
    exact h.steady 0
  · rw [hclear]
    exact h.steady_clear

theorem steady_close (h : s.cache.engine.Sound) :
    Engine.Steady 1 s.cache.engine s.close.cache.engine :=
  have hstart := steady_startClose h
  hstart.trans (steady_finishClose hstart.sound)

theorem Served.steady (h : s.cache.engine.Sound) (hserved : Served s s') :
    Engine.Steady 1 s.cache.engine s'.cache.engine := by
  cases hserved with
  | same => exact h.steady 1
  | closing => exact steady_startClose h
  | asked r _ _ => exact h.steady_step r

theorem steady_calls (h : s.cache.engine.Sound) (cs : List (Call K V)) :
    Engine.Steady cs.length s.cache.engine (s.calls cs).2.cache.engine := by
  induction cs generalizing s with
  | nil => exact h.steady 0
  | cons c rest ih =>
    have hcall := (s.served_call c).steady h
    rw [List.length_cons, Nat.add_comm]
    exact hcall.trans (ih hcall.sound)

theorem steady_tick (h : s.cache.engine.Sound) (w : Sweeper) :
    Engine.Steady 0 s.cache.engine (s.tick w).cache.engine := by
  cases hclosed : s.cache.closed with
  | true =>
    rw [tick, Cache.sweepAll_of_closed hclosed]
    exact h.steady 0
  | false =>
    rw [tick, Cache.sweepAll_of_open hclosed]
    exact h.steady_sweepAll w.batch s.instant

theorem steady_ticks (h : s.cache.engine.Sound) (n : Nat) :
    Engine.Steady 0 s.cache.engine (s.ticks n).cache.engine := by
  induction n generalizing s with
  | zero => exact h.steady 0
  | succ n ih =>
    cases hsweeper : s.sweeper? with
    | none =>
      rw [ticks_of_none hsweeper]
      exact h.steady 0
    | some w =>
      have htick := steady_tick (s := { s with now := w.due }) h w
      rw [ticks_succ hsweeper]
      exact htick.trans (ih htick.sound)

theorem steady_advance (h : s.cache.engine.Sound) (ms : Nat) :
    Engine.Steady 0 s.cache.engine (s.advance ms).cache.engine := by
  cases hsweeper : s.sweeper? with
  | none =>
    rw [advance_of_none hsweeper]
    exact h.steady 0
  | some w =>
    rw [advance_of_some hsweeper]
    split
    · exact steady_tick (s := s.jump ms) h w
    · exact h.steady 0

theorem steady_sleep (h : s.cache.engine.Sound) (ms : Nat) :
    Engine.Steady 0 s.cache.engine (s.sleep ms).cache.engine := by
  cases hsweeper : s.sweeper? with
  | none =>
    rw [sleep_of_none hsweeper]
    exact h.steady 0
  | some w =>
    rw [sleep_of_some hsweeper]
    exact steady_ticks h _

theorem steady_step (h : s.cache.engine.Sound) (c : Command K V) :
    Engine.Steady c.requestCount s.cache.engine (s.step c).2.cache.engine := by
  cases c with
  | call c =>
    have hcall := (s.served_call c).steady h
    exact hcall.trans (steady_finishClose hcall.sound)
  | tasks cs =>
    have hcalls := steady_calls h cs
    exact hcalls.trans (steady_finishClose hcalls.sound)
  | advance ms => exact steady_advance h ms
  | sleep ms => exact steady_sleep h ms
  | advanceClose ms => exact steady_close (s := s.jump ms) h

theorem steady_run (h : s.cache.engine.Sound) (script : List (Command K V)) :
    Engine.Steady (requestCount script) s.cache.engine (s.run script).2.cache.engine := by
  induction script generalizing s with
  | nil => exact h.steady 0
  | cons c rest ih =>
    have hstep := steady_step h c
    exact hstep.trans (ih hstep.sound)

/-- At any point of any script on any cache that can be opened, what is read from the table is what
the engine would answer. -/
theorem run_coherent (config : Config) (valid : config.validate = .ok ())
    (script : List (Command K V)) :
    ∃ s : Session K V, open? config true = .ok s ∧
      (s.run script).2.cache.Coherent config.capacity.toNat := by
  refine ⟨_, open?_of_valid valid, ?_⟩
  have hsteady := steady_run (s := (opened config : Session K V)) (.new _ _) script
  have hcoherent := Cache.coherent hsteady.sound
  rw [hsteady.capacity_eq, opened, Cache.new, Engine.capacity_new] at hcoherent
  exact hcoherent

/-- An entry that the other one drove out, and one that has expired between two runs. -/
theorem run_coherent_expired :
    let config : Config := { policy := .lfu, capacity := 1, sweepIntervalSecs := 10 }
    let script : List (Command Nat Nat) :=
      [.tasks [.put 1 10 (.ofSecs 60), .put 2 20 (.ofSecs 3)], .sleep 4000]
    config.validate = .ok () ∧
      ∃ s : Session Nat Nat, open? config true = .ok s ∧
        (s.run script).2.cache.closed = false ∧ (s.run script).2.cache.contains 1 = false ∧
        (s.run script).2.cache.contains 2 = true ∧
        (s.run script).2.cache.Coherent config.capacity.toNat := by
  intro config script
  obtain ⟨s, hs, hcoherent⟩ := run_coherent config rfl script
  cases (open?_of_valid rfl).symm.trans hs
  exact ⟨rfl, opened config, hs, by decide, by decide, by decide, hcoherent⟩

end Session
end BoundedCache
