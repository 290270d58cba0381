import BoundedCache.Proofs.Engine.Writes
import BoundedCache.Proofs.Session.Soundness

/-! # Reading at once what was just written -/
namespace BoundedCache

theorem Cache.put_of_open {K V : Type} [DecidableEq K] {c : Cache K V} (isOpen : c.closed = false)
    (k : K) (v : V) (ttl : Duration) (now : Instant) :
    c.put k v ttl now = (.ok (), { c with engine := c.engine.put k v ttl now }) := by
  rw [put, whenOpen_of_open isOpen]

/-- A read right after a write with a time to live. -/
theorem Cache.get_put {K V : Type} [DecidableEq K] {c : Cache K V} (h : c.engine.Sound)
    (isOpen : c.closed = false) (hc : c.engine.capacity ≠ 0) (k : K) (v : V) {ttl : Duration}
    (now : Instant) (httl : ttl ≠ .zero) :
    ((c.put k v ttl now).2.get k now).1 =
      if (c.engine.find? k).any (·.isExpired now) then .error (.notFound .expired) else .ok v := by
  have hopen : (c.put k v ttl now).2.closed = false := by
    rw [put_of_open isOpen]
    exact isOpen
  rw [get, whenOpen_of_open hopen, put_of_open isOpen]
  refine (congrArg (Except.mapError CacheError.notFound) (h.get_put hc k v now httl)).trans ?_
  split <;> rfl

namespace Session
variable {K V : Type} [DecidableEq K]

theorem call_put_of_open {s : Session K V} (isOpen : s.cache.closed = false) (k : K) (v : V)
    (ttl : Duration) :
    s.call (.put k v ttl) =
      (.done (.ok ()), s.withEngine (s.cache.engine.put k v ttl s.instant)) := by
  rw [call, after, Cache.put_of_open isOpen]
  rfl

/-- A write to an open cache is accepted. It changes the value of an entry that is stored under its
key, but neither when that was created nor how long it lives. A read of the key before anything else
happens gives the value back, unless the entry had expired and was not yet removed: it is found
expired then. -/
theorem run_reread (config : Config) (valid : config.validate = .ok ())
    (script : List (Command K V)) :
    ∃ s₀ : Session K V, open? config true = .ok s₀ ∧
      ∀ s, s = (s₀.run script).2 → s.cache.closed = false →
        ∀ k v ttl, ttl ≠ .zero →
          ∃ s', s.call (.put k v ttl) = (.done (.ok ()), s') ∧ s'.instant = s.instant ∧
            s'.cache.engine.find? k =
              some (Entry.rewritten (s.cache.engine.find? k) k v ttl s.instant) ∧
            (s'.call (.get k)).1 = .value
              (if (s.cache.engine.find? k).any (·.isExpired s.instant) then
                .error (.notFound .expired) else .ok v) := by
  refine ⟨_, open?_of_valid valid, ?_⟩
  intro s hs isOpen k v ttl httl
  have hsteady := steady_run (s := (opened config : Session K V)) (.new _ _) script
  rw [← hs] at hsteady
  have hcapacity : s.cache.engine.capacity ≠ 0 := by
    rw [hsteady.capacity_eq, opened, Cache.new, Engine.capacity_new]
    exact Nat.ne_of_gt (Word.one_le_toNat (Config.validate_eq_ok_iff.1 valid).1)
  have hfind := hsteady.sound.find?_put hcapacity k v ttl s.instant
  have hread := Cache.get_put hsteady.sound isOpen hcapacity k v s.instant httl
  rw [Cache.put_of_open isOpen] at hread
  exact ⟨_, call_put_of_open isOpen k v ttl, rfl, hfind, congrArg Reply.value hread⟩

/-- Not every value that was written is read back: this one replaces the value of an entry that has
expired after a second and that no sweep has met. -/
theorem reread_of_expired :
    let config : Config := { capacity := 4, sweepIntervalSecs := 10 }
    let script : List (Command Nat Nat) := [.call (.put 1 10 (.ofSecs 1)), .advance 2000]
    config.validate = .ok () ∧ Duration.ofSecs 60 ≠ .zero ∧
      ∃ s₀ : Session Nat Nat, open? config true = .ok s₀ ∧
        let s := (s₀.run script).2
        s.cache.closed = false ∧ (s.call (.put 1 20 (.ofSecs 60))).1 = .done (.ok ()) ∧
          ((s.call (.put 1 20 (.ofSecs 60))).2.call (.get 1)).1 ≠ .value (.ok 20) := by
  refine ⟨rfl, by decide, _, open?_of_valid rfl, by decide, rfl, ?_⟩
  exact fun h => nomatch h

/-- Two entries written once more, one after it has expired and one before. -/
theorem run_reread_two :
    let config : Config := { policy := .lfu, capacity := 4, sweepIntervalSecs := 10 }
    let script : List (Command Nat Nat) :=
      [.tasks [.put 1 10 (.ofSecs 1), .put 2 20 (.ofSecs 3)], .advance 2000]
    config.validate = .ok () ∧ Duration.ofSecs 60 ≠ .zero ∧
      ∃ s₀ : Session Nat Nat, open? config true = .ok s₀ ∧
        let s := (s₀.run script).2
        s.cache.closed = false ∧
          (∃ s', s.call (.put 1 11 (.ofSecs 60)) = (.done (.ok ()), s') ∧
            s'.cache.engine.find? 1 =
              some { key := 1, value := 11, createdAt := .origin, ttl := .ofSecs 1 } ∧
            (s'.call (.get 1)).1 = .value (.error (.notFound .expired))) ∧
          ∃ s', s.call (.put 2 21 (.ofSecs 60)) = (.done (.ok ()), s') ∧
            s'.cache.engine.find? 2 =
              some { key := 2, value := 21, createdAt := .origin, ttl := .ofSecs 3 } ∧
            (s'.call (.get 2)).1 = .value (.ok 21) := by
  intro config script
  have httl : Duration.ofSecs 60 ≠ .zero := by decide
  obtain ⟨s₀, hs₀, hreread⟩ := run_reread config rfl script
  cases (open?_of_valid rfl).symm.trans hs₀
  obtain ⟨s', hput, -, hfind, hget⟩ := hreread _ rfl (by decide) 1 11 (.ofSecs 60) httl
  obtain ⟨t', hput', -, hfind', hget'⟩ := hreread _ rfl (by decide) 2 21 (.ofSecs 60) httl
  rw [if_pos (by decide)] at hget
  rw [if_neg (by decide)] at hget'
  exact ⟨rfl, httl, _, hs₀, by decide, ⟨s', hput, hfind.trans (by decide), hget⟩,
    t', hput', hfind'.trans (by decide), hget'⟩

end Session
end BoundedCache
