import BoundedCache.Proofs.Session.Soundness

/-! # Closing is final

Whatever happens to a closed session, it stays the same but for its clock: its engine is as new, its
sweeper is gone, and every call has one reply only. While the sweeper is still waited for, the entries
are there, but only for the calls that do without an open cache.
-/
namespace BoundedCache
variable {K V : Type}

namespace Engine

/-- A sound engine with the policy and the capacity of a configuration. -/
structure Suits [DecidableEq K] (config : Config) (e : Engine K V) : Prop where
  sound : e.Sound
  policy_eq : e.policy = config.policy
  capacity_eq : e.capacity = config.capacity.toNat

namespace Suits
variable [DecidableEq K] {config : Config} {e : Engine K V}

theorem new (config : Config) :
    (Engine.new config.policy config.capacity.toNat : Engine K V).Suits config where
  sound := .new ..
  policy_eq := policy_new ..
  capacity_eq := capacity_new ..

theorem clear_eq (h : e.Suits config) : e.clear = .new config.policy config.capacity.toNat := by
  rw [Engine.clear_eq, h.policy_eq, h.capacity_eq]

theorem step (h : e.Suits config) (r : Request K V) : (e.step r).2.Suits config where
  sound := (h.sound.steady_step r).sound
  policy_eq := by
    rw [← h.policy_eq]
    cases e <;> cases r <;> rfl
  capacity_eq := (h.sound.steady_step r).capacity_eq.trans h.capacity_eq

theorem sweepAll (h : e.Suits config) (budget : Nat) (now : Instant) :
    (e.sweepAll budget now).2.Suits config where
  sound := (h.sound.steady_sweepAll budget now).sound
  policy_eq := by
    rw [← h.policy_eq]
    cases e <;> rfl
  capacity_eq := (h.sound.steady_sweepAll budget now).capacity_eq.trans h.capacity_eq

end Suits
end Engine

/-! ## Replies of a closed cache -/

namespace Call

def closes : Call K V → Bool
  | .close => true
  | _ => false

/-- The call reads or changes entries. -/
def needsOpen : Call K V → Bool
  | .get _ | .put _ _ _ | .putFor _ _ _ _ | .remove _ | .clear => true
  | .contains _ | .size | .isEmpty | .policy | .capacity | .isClosed | .close | .check => false

/-- The reply of a closed cache. -/
def closedReply (config : Config) : Call K V → Reply V
  | .get _ => .value (.error .closed)
  | .put _ _ _ | .putFor _ _ _ _ | .clear => .done (.error .closed)
  | .remove _ => .removed (.error .closed)
  | .contains _ => .flag false
  | .size => .count 0
  | .isEmpty => .flag true
  | .policy => .policy config.policy
  | .capacity => .count config.capacity.toNat
  | .isClosed => .flag true
  | .close => .closed
  | .check => .checked (.ok ())

end Call

/-- The reply refuses a call because the cache is closed. -/
def Reply.refuses : Reply V → Bool
  | .value (.error .closed) | .done (.error .closed) | .removed (.error .closed) => true
  | _ => false

namespace Command

/-- The command closes the cache, be it in one of several tasks. -/
def closes : Command K V → Bool
  | .call c => c.closes
  | .tasks cs => cs.any Call.closes
  | .advanceClose _ => true
  | .advance _ | .sleep _ => false

/-- How far a command moves the clock, in milliseconds. -/
def elapsed : Command K V → Nat
  | .advance ms | .sleep ms | .advanceClose ms => ms
  | .call _ | .tasks _ => 0

/-- The outcome on a closed session. -/
def closedOutcome (config : Config) (now : Nat) : Command K V → Outcome V
  | .call c => .reply (c.closedReply config)
  | .tasks cs => .replies (cs.map (Call.closedReply config))
  | .advance ms | .sleep ms | .advanceClose ms => .clock (now + ms)

end Command

namespace Session

/-- The session of a configuration once it is closed. -/
def shut (config : Config) (now : Nat) : Session K V :=
  { cache := { engine := .new config.policy config.capacity.toNat, closed := true }
    sweeper? := none, now }

/-- The outcomes of a script on a closed session. -/
def closedOutcomes (config : Config) (now : Nat) : List (Command K V) → List (Outcome V)
  | [] => []
  | c :: rest => c.closedOutcome config now :: closedOutcomes config (now + c.elapsed) rest

/-- How far a script moves the clock. -/
def elapsed : List (Command K V) → Nat
  | [] => 0
  | c :: rest => c.elapsed + elapsed rest

variable [DecidableEq K] {config : Config} {s : Session K V} {w : Sweeper}

theorem calls_cons (s : Session K V) (c : Call K V) (rest : List (Call K V)) :
    s.calls (c :: rest) =
      ((s.call c).1 :: ((s.call c).2.calls rest).1, ((s.call c).2.calls rest).2) := rfl

theorem calls_append (s : Session K V) (cs cs' : List (Call K V)) :
    s.calls (cs ++ cs') =
      ((s.calls cs).1 ++ ((s.calls cs).2.calls cs').1, ((s.calls cs).2.calls cs').2) := by
  induction cs generalizing s with
  | nil => rfl
  | cons c rest ih => rw [List.cons_append, calls_cons, ih, calls_cons, List.cons_append]

theorem step_call (s : Session K V) (c : Call K V) :
    s.step (.call c) = (.reply (s.call c).1, (s.call c).2.finishClose) := rfl

theorem step_tasks (s : Session K V) (cs : List (Call K V)) :
    s.step (.tasks cs) = (.replies (s.calls cs).1, (s.calls cs).2.finishClose) := rfl

theorem run_cons (s : Session K V) (c : Command K V) (rest : List (Command K V)) :
    s.run (c :: rest) = ((s.step c).1 :: ((s.step c).2.run rest).1, ((s.step c).2.run rest).2) := rfl

theorem run_append (s : Session K V) (script script' : List (Command K V)) :
    s.run (script ++ script') =
      ((s.run script).1 ++ ((s.run script).2.run script').1, ((s.run script).2.run script').2) := by
  induction script generalizing s with
  | nil => rfl
  | cons c rest ih => rw [List.cons_append, run_cons, ih, run_cons, List.cons_append]

/-! ## Closed sessions -/

theorem reply_of_closed (hclosed : s.cache.closed = true) (config : Config) {c : Call K V}
    (hc : c.needsOpen = true) : (s.call c).1 = c.closedReply config := by
  cases c with
  | get | put | putFor | remove | clear =>
    exact congrArg Prod.fst (after_whenOpen_of_closed hclosed _ _)
  | _ => cases hc

/-- In a closed session a call changes nothing, be the entries discarded or not. -/
theorem call_of_closed (hclosed : s.cache.closed = true) (c : Call K V) : (s.call c).2 = s := by
  cases c with
  | get | put | putFor | remove | clear =>
    exact congrArg Prod.snd (after_whenOpen_of_closed hclosed _ _)
  | close => exact startClose_of_closed hclosed
  | contains | size | isEmpty | policy | capacity | isClosed | check => rfl

theorem calls_of_closed (hclosed : s.cache.closed = true) (cs : List (Call K V)) :
    s.calls cs = (cs.map fun c => (s.call c).1, s) := by
  induction cs with
  | nil => rfl
  | cons c rest ih => rw [calls_cons, call_of_closed hclosed, ih, List.map_cons]

theorem shut_call (config : Config) (now : Nat) (c : Call K V) :
    (shut config now).call c = (c.closedReply config, shut config now) := by
  have htable : (shut config now : Session K V).cache.engine.table = .empty := Engine.table_new ..
  cases c with
  | contains k =>
    rw [call, Cache.contains, htable]
    rfl
  | size =>
    rw [call, Cache.size, htable]
    rfl
  | isEmpty =>
    rw [call, Cache.isEmpty, htable]
    rfl
  | policy => exact congrArg (fun p => (Reply.policy p, _)) (Engine.policy_new ..)
  | capacity => exact congrArg (fun n => (Reply.count n, _)) (Engine.capacity_new ..)
  | check => exact congrArg (fun r => (Reply.checked r, _)) (Engine.Sound.new ..).check_eq
  | _ => rfl

theorem shut_calls (config : Config) (now : Nat) (cs : List (Call K V)) :
    (shut config now).calls cs = (cs.map (Call.closedReply config), shut config now) := by
  induction cs with
  | nil => rfl
  | cons c rest ih => rw [calls_cons, shut_call, ih, List.map_cons]

theorem shut_step (config : Config) (now : Nat) (c : Command K V) :
    (shut config now).step c = (c.closedOutcome config now, shut config (now + c.elapsed)) := by
  cases c with
  | call c =>
    rw [step_call, shut_call]
    rfl
  | tasks cs =>
    rw [step_tasks, shut_calls]
    rfl
  | advance ms => rfl
  | sleep ms => rfl
  | advanceClose ms => rfl

/-- Nothing but the clock changes in a closed session. -/
theorem shut_run (config : Config) (now : Nat) (script : List (Command K V)) :
    (shut config now).run script =
      (closedOutcomes config now script, shut config (now + elapsed script)) := by
  induction script generalizing now with
  | nil => rfl
  | cons c rest ih =>
    rw [run_cons, shut_step, ih, closedOutcomes, elapsed, Nat.add_assoc]

/-! ## Open sessions -/

/-- An open session of a configuration. -/
structure Running (config : Config) (s : Session K V) : Prop where
  suits : s.cache.engine.Suits config
  isOpen : s.cache.closed = false

theorem now_call (s : Session K V) {c : Call K V} (hc : c.closes = false) :
    (s.call c).2.now = s.now := by
  cases c with
  | close => cases hc
  | _ => rfl

namespace Running

theorem opened (config : Config) : Running config (opened config : Session K V) :=
  ⟨.new config, rfl⟩

theorem setNow (h : Running config s) (now : Nat) : Running config { s with now } :=
  ⟨h.suits, h.isOpen⟩

theorem close (h : Running config s) : s.close = shut config s.now := by
  obtain ⟨⟨engine, closed⟩, sweeper?, now⟩ := s
  obtain rfl : closed = false := h.isOpen
  rw [shut, ← h.suits.clear_eq]
  cases sweeper? <;> rfl

theorem whenOpen {α : Type} (h : Running config s)
    {act : Engine K V → Except CacheError α × Engine K V}
    (hact : (act s.cache.engine).2.Suits config) (reply : Except CacheError α → Reply V) :
    Running config (s.after reply (s.cache.whenOpen act)).2 := by
  rw [Cache.whenOpen_of_open h.isOpen]
  exact ⟨hact, h.isOpen⟩

/-- Every call but a closing one leaves the session open. -/
theorem call (h : Running config s) {c : Call K V} (hc : c.closes = false) :
    Running config (s.call c).2 := by
  cases c with
  | get k => exact h.whenOpen (h.suits.step (.get k s.instant)) _
  | put k v ttl => exact h.whenOpen (h.suits.step (.put k v ttl s.instant)) _
  | putFor k v amount unit =>
    exact h.whenOpen (h.suits.step (.put k v (unit.toDuration amount) s.instant)) _
  | remove k => exact h.whenOpen (h.suits.step (.remove k)) _
  | clear => exact h.whenOpen (h.suits.step .clear) _
  | close => cases hc
  | contains | size | isEmpty | policy | capacity | isClosed | check => exact h

theorem refuses_call (h : Running config s) (c : Call K V) : (s.call c).1.refuses = false := by
  cases c with
  | get k =>
    rw [Session.call, Cache.get, Cache.whenOpen_of_open h.isOpen]
    cases hk : (s.cache.engine.get k s.instant).1 <;> simp [after, hk, Except.mapError, Reply.refuses]
  | put k v ttl =>
    rw [Session.call, Cache.put, Cache.whenOpen_of_open h.isOpen]
    rfl
  | putFor k v amount unit =>
    rw [Session.call, Cache.put, Cache.whenOpen_of_open h.isOpen]
    rfl
  | remove k =>
    rw [Session.call, Cache.remove, Cache.whenOpen_of_open h.isOpen]
    rfl
  | clear =>
    rw [Session.call, Cache.clear, Cache.whenOpen_of_open h.isOpen]
    rfl
  | _ => rfl

theorem calls (h : Running config s) {cs : List (Call K V)} (hcs : ∀ c ∈ cs, c.closes = false) :
    Running config (s.calls cs).2 ∧ ∀ r ∈ (s.calls cs).1, r.refuses = false := by
  induction cs generalizing s with
  | nil => exact ⟨h, fun _ hr => nomatch hr⟩
  | cons c rest ih =>
    obtain ⟨hc, hrest⟩ := List.forall_mem_cons.1 hcs
    obtain ⟨hlast, hreplies⟩ := ih (h.call hc) hrest
    exact ⟨hlast, List.forall_mem_cons.2 ⟨h.refuses_call c, hreplies⟩⟩

/-- A closing call among several leaves the session closed, wherever it stands. -/
theorem calls_closing (h : Running config s) {cs : List (Call K V)}
    (hcs : cs.any Call.closes = true) : (s.calls cs).2.finishClose = shut config s.now := by
  induction cs generalizing s with
  | nil => cases hcs
  | cons c rest ih =>
    rw [calls_cons]
    cases hc : c.closes with
    | true =>
      have hcall : (s.call c).2 = s.startClose := by
        cases c with
        | close => rfl
        | _ => cases hc
      rw [hcall, calls_of_closed s.closed_startClose]
      exact h.close
    | false =>
      rw [List.any_cons, hc, Bool.false_or] at hcs
      rw [ih (h.call hc) hcs, now_call s hc]

theorem tick (h : Running config s) (w : Sweeper) : Running config (s.tick w) := by
  rw [Session.tick, Cache.sweepAll_of_open h.isOpen]
  exact ⟨h.suits.sweepAll w.batch s.instant, h.isOpen⟩

theorem ticks (h : Running config s) (n : Nat) : Running config (s.ticks n) := by
  induction n generalizing s with
  | zero => exact h
  | succ n ih =>
    cases hw : s.sweeper? with
    | none =>
      rw [ticks_of_none hw]
      exact h
    | some w =>
      rw [ticks_succ hw]
      exact ih ((h.setNow w.due).tick w)

theorem advance (h : Running config s) (ms : Nat) : Running config (s.advance ms) := by
  have hjump : Running config (s.jump ms) := h.setNow _
  cases hw : s.sweeper? with
  | none =>
    rw [advance_of_none hw]
    exact hjump
  | some w =>
    rw [advance_of_some hw]
    split
    · exact hjump.tick w
    · exact hjump

theorem sleep (h : Running config s) (ms : Nat) : Running config (s.sleep ms) := by
  cases hw : s.sweeper? with
  | none =>
    rw [sleep_of_none hw]
    exact h.setNow _
  | some w =>
    rw [sleep_of_some hw]
    exact (h.ticks _).setNow _

theorem step (h : Running config s) {c : Command K V} (hc : c.closes = false) :
    Running config (s.step c).2 := by
  cases c with
  | call c =>
    have hcall := h.call hc
    rw [step_call, finishClose_of_open hcall.isOpen]
    exact hcall
  | tasks cs =>
    have hcalls := (h.calls (by simpa [Command.closes] using hc)).1
    rw [step_tasks, finishClose_of_open hcalls.isOpen]
    exact hcalls
  | advance ms => exact h.advance ms
  | sleep ms => exact h.sleep ms
  | advanceClose ms => cases hc

theorem step_closing (h : Running config s) {c : Command K V} (hc : c.closes = true) :
    (s.step c).2 = shut config (s.now + c.elapsed) := by
  cases c with
  | call c => cases c with
    | close => exact h.close
    | _ => cases hc
  | tasks cs => exact h.calls_closing hc
  | advanceClose ms => exact (h.setNow (s.now + ms)).close
  | advance ms => cases hc
  | sleep ms => cases hc

theorem run (h : Running config s) {script : List (Command K V)}
    (hscript : ∀ c ∈ script, c.closes = false) : Running config (s.run script).2 := by
  induction script generalizing s with
  | nil => exact h
  | cons c rest ih =>
    obtain ⟨hc, hrest⟩ := List.forall_mem_cons.1 hscript
    exact ih (h.step hc) hrest

/-- Every script leaves a session open or closed for good. -/
theorem run_cases (h : Running config s) (script : List (Command K V)) :
    Running config (s.run script).2 ∨ ∃ now, (s.run script).2 = shut config now := by
  induction script generalizing s with
  | nil => exact .inl h
  | cons c rest ih =>
    cases hc : c.closes with
    | true =>
      refine .inr ⟨s.now + c.elapsed + elapsed rest, ?_⟩
      have hrun := shut_run (V := V) config (s.now + c.elapsed) rest
      rw [← h.step_closing hc] at hrun
      exact congrArg Prod.snd hrun
    | false => exact ih (h.step hc)

end Running

/-- Once a script has closed the cache, be it at once, after a jump of the clock or in one of several
tasks, nothing that follows changes more than the clock, and every outcome is that of a closed cache.
Of several tasks those before the first that closes reply as if it were not there, and those after it
that read or change entries are refused. -/
theorem run_closed (config : Config) (valid : config.validate = .ok ())
    (before : List (Command K V)) :
    ∃ s : Session K V, open? config true = .ok s ∧
      (∀ c after, c.closes = true →
        let now := (s.run before).2.now + c.elapsed
        (s.run (before ++ [c])).2 = shut config now ∧
          s.run (before ++ [c] ++ after) =
            ((s.run (before ++ [c])).1 ++ closedOutcomes config now after,
              shut config (now + elapsed after))) ∧
      ((∀ c ∈ before, c.closes = false) → ∀ cs cs', (∀ c ∈ cs, c.closes = false) →
        let replies := ((s.run before).2.calls cs).1
        (∀ r ∈ replies, r.refuses = false) ∧
          ∃ rs, ((s.run before).2.step (.tasks (cs ++ .close :: cs'))).1 =
              .replies (replies ++ .closed :: rs) ∧
            List.Forall₂ (fun c r => c.needsOpen = true → r = c.closedReply config) cs' rs) := by
  have hopened := Running.opened (K := K) (V := V) config
  refine ⟨_, open?_of_valid valid, fun c after hc => ?_, fun hbefore cs cs' hcs => ?_⟩
  · have hclosed : ((opened config).run (before ++ [c])).2 =
        shut config (((opened config).run before).2.now + c.elapsed) := by
      rw [run_append]
      rcases hopened.run_cases before with hrunning | ⟨now, hshut⟩
      · exact hrunning.step_closing hc
      · rw [hshut]
        exact congrArg Prod.snd (shut_step config now c)
    refine ⟨hclosed, ?_⟩
    rw [run_append, hclosed, shut_run]
  · obtain ⟨-, hreplies⟩ := (hopened.run hbefore).calls hcs
    have hclosed := (((opened config).run before).2.calls cs).2.closed_startClose
    rw [step_tasks, calls_append, calls_cons, call, calls_of_closed hclosed]
    refine ⟨hreplies, _, rfl, List.forall₂_map_right_iff.2 (List.forall₂_same.2 fun c _ hc => ?_)⟩
    exact reply_of_closed hclosed config hc

/-- A cache closed by one of several tasks, one of which comes too late, and then closed again after
its sweeper would have run. -/
theorem run_closed_twice :
    let config : Config := { policy := .lfu, capacity := 2 }
    let before : List (Command Nat Nat) := [.call (.put 1 10 (.ofSecs 60)), .sleep 500]
    let cs : List (Call Nat Nat) := [.get 1, .size]
    let cs' : List (Call Nat Nat) := [.put 2 20 (.ofSecs 60), .get 1]
    let after : List (Command Nat Nat) := [.advance 5000, .call .size, .advanceClose 1]
    config.validate = .ok () ∧ (∀ c ∈ before, c.closes = false) ∧ (∀ c ∈ cs, c.closes = false) ∧
      ∃ s : Session Nat Nat, open? config true = .ok s ∧
        (s.run (before ++ [.tasks (cs ++ .close :: cs')])).2 = shut config 500 ∧
        (s.run (before ++ [.tasks (cs ++ .close :: cs')] ++ after)).2 = shut config 5501 ∧
        ∃ rs, ((s.run before).2.step (.tasks (cs ++ .close :: cs'))).1 =
            .replies (((s.run before).2.calls cs).1 ++ .closed :: rs) ∧
          List.Forall₂ (fun c r => c.needsOpen = true → r = c.closedReply config) cs' rs := by
  intro config before cs cs' after
  have hbefore : ∀ c ∈ before, c.closes = false := by decide
  have hcs : ∀ c ∈ cs, c.closes = false := by decide
  obtain ⟨s, hs, hclosing, hbatch⟩ := run_closed config rfl before
  cases (open?_of_valid rfl).symm.trans hs
  obtain ⟨hclosed, hafter⟩ := hclosing (.tasks (cs ++ .close :: cs')) after rfl
  exact ⟨rfl, hbefore, hcs, _, hs, hclosed, congrArg Prod.snd hafter, (hbatch hbefore cs cs' hcs).2⟩

/-- The tasks after a closing one run before the sweeper has stopped, and the table is as it was. -/
example :
    let s := ((opened { capacity := 2 } : Session Nat Nat).call (.put 1 10 (.ofSecs 60))).2
    (s.calls [.close, .get 1, .size, .contains 1, .check]).1 =
      [.closed, .value (.error .closed), .count 1, .flag true, .checked (.ok ())] := by
  rfl

end Session
end BoundedCache
