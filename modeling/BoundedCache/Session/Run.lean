import BoundedCache.Session.Basic

/-! # Scripts on a session -/
namespace BoundedCache

/-- What a task can ask of a cache; none of it takes time. -/
inductive Call (K V : Type)
  | get (key : K)
  | put (key : K) (value : V) (ttl : Duration)
  | putFor (key : K) (value : V) (amount : Int) (unit : TimeUnit)
  | remove (key : K)
  | clear
  | contains (key : K)
  | size
  | isEmpty
  | policy
  | capacity
  | isClosed
  | close
  | check

inductive Reply (V : Type)
  | value (result : Except CacheError V)
  | done (result : Except CacheError Unit)
  | removed (result : Except CacheError (Option V))
  | flag (b : Bool)
  | count (n : Nat)
  | policy (policy : Policy)
  | closed
  | checked (result : Except Engine.Fault Unit)

/-- A step of a script: a call, a move of the clock, or several tasks with a call each, which take
their turns one after another. A step is over when no task is left waiting. -/
inductive Command (K V : Type)
  | call (c : Call K V)
  | advance (ms : Nat)
  | sleep (ms : Nat)
  | advanceClose (ms : Nat)
  | tasks (calls : List (Call K V))

/-- A reply, the replies of several tasks, or the time after the clock was moved. -/
inductive Outcome (V : Type)
  | reply (r : Reply V)
  | replies (rs : List (Reply V))
  | clock (ms : Nat)

namespace Session
variable {K V : Type} [DecidableEq K]

/-- Replaces the cache by the one that an operation leaves, and makes a reply of its result. -/
def after {α : Type} (s : Session K V) (reply : α → Reply V) (outcome : α × Cache K V) :
    Reply V × Session K V :=
  (reply outcome.1, { s with cache := outcome.2 })

/-- One task's turn. A closing one waits for the sweeper after it, and gives way to the next. -/
def call (s : Session K V) : Call K V → Reply V × Session K V
  | .get key => s.after .value (s.cache.get key s.instant)
  | .put key value ttl => s.after .done (s.cache.put key value ttl s.instant)
  | .putFor key value amount unit =>
    s.after .done (s.cache.put key value (unit.toDuration amount) s.instant)
  | .remove key => s.after .removed (s.cache.remove key)
  | .clear => s.after .done s.cache.clear
  | .contains key => (.flag (s.cache.contains key), s)
  | .size => (.count s.cache.size, s)
  | .isEmpty => (.flag s.cache.isEmpty, s)
  | .policy => (.policy s.cache.policy, s)
  | .capacity => (.count s.cache.capacity, s)
  | .isClosed => (.flag s.cache.closed, s)
  | .close => (.closed, s.startClose)
  | .check => (.checked s.cache.check, s)

def calls (s : Session K V) : List (Call K V) → List (Reply V) × Session K V
  | [] => ([], s)
  | c :: rest =>
    let (reply, s) := s.call c
    let (replies, s) := s.calls rest
    (reply :: replies, s)

def step (s : Session K V) : Command K V → Outcome V × Session K V
  | .call c =>
    let (reply, s) := s.call c
    (.reply reply, s.finishClose)
  | .tasks cs =>
    let (replies, s) := s.calls cs
    (.replies replies, s.finishClose)
  | .advance ms =>
    let s := s.advance ms
    (.clock s.now, s)
  | .sleep ms =>
    let s := s.sleep ms
    (.clock s.now, s)
  | .advanceClose ms =>
    let s := (s.jump ms).close
    (.clock s.now, s)

/-- The outcomes of the steps of a script, and the session that it leaves. -/
def run (s : Session K V) : List (Command K V) → List (Outcome V) × Session K V
  | [] => ([], s)
  | c :: rest =>
    let (outcome, s) := s.step c
    let (outcomes, s) := s.run rest
    (outcome :: outcomes, s)

end Session
end BoundedCache
