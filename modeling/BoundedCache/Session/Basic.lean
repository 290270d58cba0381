import BoundedCache.Cache

/-! # A cache on a clock, with a sweeper that runs from time to time

The clock counts milliseconds from the moment when the cache was opened. It only moves when it is
told to.
-/
namespace BoundedCache

/-- When the sweeper runs next, how long it waits between two runs, both in milliseconds, and how
many slots it visits in a batch. -/
structure Sweeper where
  interval : Nat
  batch : Nat
  due : Nat

namespace Sweeper

/-- A run this much later than it was due still counts as on time. -/
def tolerance : Nat := 5

/-- The sweeper after a run: the next run is due an interval after this one was due, or an interval
from now if this one was late. -/
def reschedule (s : Sweeper) (now : Nat) : Sweeper :=
  { s with due := if now ≤ s.due + tolerance then s.due + s.interval else now + s.interval }

/-- How many runs are due up to a time, if each is on time. -/
def runsUpTo (s : Sweeper) (time : Nat) : Nat :=
  if s.due ≤ time then (time - s.due) / s.interval + 1 else 0

/-- The sweeper of a cache opened at the clock's origin; there is none if its first run would be
past the end of the clock. -/
def start? (config : Config) : Option Sweeper :=
  (Instant.origin.add? config.sweepInterval).map fun _ =>
    let interval := config.sweepIntervalSecs.toNat * 1000
    { interval, batch := config.sweepBatch.toNat, due := interval }

end Sweeper

/-- A cache with its sweeper and the time in milliseconds. If the cache is closed, the sweeper is
gone or was told to stop. -/
structure Session (K V : Type) where
  cache : Cache K V
  sweeper? : Option Sweeper
  now : Nat

namespace Session
variable {K V : Type}

/-- Opens a cache if the configuration is valid and there is something to run its sweeper. -/
def open? (config : Config) (runtime : Bool) : Except CacheError (Session K V) := do
  config.validate.mapError .invalid
  require (runtime = true) .noRuntime
  return { cache := .new config.policy config.capacity.toNat,
           sweeper? := Sweeper.start? config, now := 0 }

def instant (s : Session K V) : Instant := .ofMillis s.now

/-- Closes the cache and tells the sweeper to stop. Calls are refused from now on, but the entries
stay until the sweeper has stopped; they go at once if there is none. A closed cache is left alone. -/
def startClose (s : Session K V) : Session K V :=
  if s.cache.closed then s
  else match s.sweeper? with
    | some _ => { s with cache := s.cache.refuse }
    | none => { s with cache := s.cache.refuse.discard }

/-- Lets the sweeper of a closed cache stop, and then discards the entries. -/
def finishClose (s : Session K V) : Session K V :=
  if s.cache.closed then
    match s.sweeper? with
    | some _ => { s with cache := s.cache.discard, sweeper? := none }
    | none => s
  else s

/-- Closes the cache, stops the sweeper and discards all entries. -/
def close (s : Session K V) : Session K V := s.startClose.finishClose

/-- Moves the clock on at once. A run of the sweeper that was due is then late and is made up for
afterwards. -/
def jump (s : Session K V) (ms : Nat) : Session K V := { s with now := s.now + ms }

variable [DecidableEq K]

/-- Runs the sweeper at the present time. -/
def tick (s : Session K V) (sweeper : Sweeper) : Session K V :=
  { s with cache := s.cache.sweepAll sweeper.batch s.instant,
           sweeper? := some (sweeper.reschedule s.now) }

/-- Moves the clock on at once and then lets the sweeper run if it is due. -/
def advance (s : Session K V) (ms : Nat) : Session K V :=
  let s := s.jump ms
  match s.sweeper? with
  | some sweeper => if sweeper.due ≤ s.now then s.tick sweeper else s
  | none => s

/-- Lets the sweeper run a number of times, each time when it is due. -/
def ticks (s : Session K V) : Nat → Session K V
  | 0 => s
  | n + 1 =>
    match s.sweeper? with
    | some sweeper => ({ s with now := sweeper.due }.tick sweeper).ticks n
    | none => s

/-- Lets time pass, with every run of the sweeper at its own time. -/
def sleep (s : Session K V) (ms : Nat) : Session K V :=
  let stop := s.now + ms
  match s.sweeper? with
  | some sweeper => { s.ticks (sweeper.runsUpTo stop) with now := stop }
  | none => { s with now := stop }

end Session
end BoundedCache
