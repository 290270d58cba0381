import BoundedCache.Word

/-! # Durations, instants and units of time

Both a duration and an instant count whole seconds and nanoseconds below one second.
-/
namespace BoundedCache

structure Duration where
  secs : Nat
  nanos : Nat
  secs_le : secs ≤ Word.max := by decide
  nanos_lt : nanos < 1000000000 := by decide
deriving DecidableEq

namespace Duration

def zero : Duration := { secs := 0, nanos := 0 }

/-- The longest duration. -/
def max : Duration := { secs := Word.max, nanos := 999999999 }

/-- The duration of the given parts, or the longest one if the seconds do not fit in a word. -/
def saturating (secs nanos : Nat) (h : nanos < 1000000000 := by omega) : Duration :=
  if fits : secs ≤ Word.max then ⟨secs, nanos, fits, h⟩ else max

def ofSecs (secs : Nat) : Duration := saturating secs 0

/-- The whole length in nanoseconds. -/
def totalNanos (d : Duration) : Nat := d.secs * 1000000000 + d.nanos

theorem saturating_of_le {secs nanos : Nat} {h : nanos < 1000000000} (fits : secs ≤ Word.max) :
    saturating secs nanos h = ⟨secs, nanos, fits, h⟩ := dif_pos fits

theorem saturating_of_lt {secs nanos : Nat} {h : nanos < 1000000000} (big : Word.max < secs) :
    saturating secs nanos h = max := dif_neg (Nat.not_le.2 big)

end Duration

inductive TimeUnit
  | nanoseconds | microseconds | milliseconds | seconds | minutes | hours | days
deriving DecidableEq

namespace TimeUnit

/-- The length of one unit. -/
def inNanos : TimeUnit → Nat
  | nanoseconds => 1
  | microseconds => 1000
  | milliseconds => 1000000
  | seconds => 1000000000
  | minutes => 60 * 1000000000
  | hours => 3600 * 1000000000
  | days => 86400 * 1000000000

/-- So many units as a duration: nothing for an amount that is not positive, and the longest
duration for one that does not fit. -/
def toDuration (unit : TimeUnit) (amount : Int) : Duration :=
  let n := amount.toNat
  match unit with
  | nanoseconds => .saturating (n / 1000000000) (n % 1000000000)
  | microseconds => .saturating (n / 1000000) (n % 1000000 * 1000)
  | milliseconds => .saturating (n / 1000) (n % 1000 * 1000000)
  | seconds => .saturating n 0
  | minutes => .saturating (n * 60) 0
  | hours => .saturating (n * 3600) 0
  | days => .saturating (n * 86400) 0

end TimeUnit

/-- A point of time, counted from the clock's origin. -/
structure Instant where
  secs : Nat
  nanos : Nat
  nanos_lt : nanos < 1000000000 := by decide
deriving DecidableEq

namespace Instant

/-- The clock cannot show this second, the one of number `2 ^ 63`, or a later one. -/
def clockEnd : Nat := 9223372036854775808

def origin : Instant := { secs := 0, nanos := 0 }

def ofMillis (ms : Nat) : Instant :=
  { secs := ms / 1000, nanos := ms % 1000 * 1000000, nanos_lt := by omega }

/-- The whole distance from the origin in nanoseconds. -/
def totalNanos (t : Instant) : Nat := t.secs * 1000000000 + t.nanos

instance : LE Instant := ⟨fun s t => s.secs < t.secs ∨ s.secs = t.secs ∧ s.nanos ≤ t.nanos⟩

theorem le_def {s t : Instant} :
    s ≤ t ↔ s.secs < t.secs ∨ s.secs = t.secs ∧ s.nanos ≤ t.nanos := Iff.rfl

instance (s t : Instant) : Decidable (s ≤ t) := decidable_of_iff _ le_def.symm

/-- Seconds and nanoseconds below one second, if the clock can show them. -/
def within? (secs nanos : Nat) (h : nanos < 1000000000) : Option Instant :=
  if secs < clockEnd then some ⟨secs, nanos, h⟩ else none

/-- The instant a duration later; none past the end of the clock. -/
def add? (t : Instant) (d : Duration) : Option Instant :=
  if h : t.nanos + d.nanos < 1000000000 then
    within? (t.secs + d.secs) (t.nanos + d.nanos) h
  else
    within? (t.secs + d.secs + 1) (t.nanos + d.nanos - 1000000000)
      (by have := t.nanos_lt; have := d.nanos_lt; omega)

theorem le_iff_totalNanos_le {s t : Instant} : s ≤ t ↔ s.totalNanos ≤ t.totalNanos := by
  have hs := s.nanos_lt
  have ht := t.nanos_lt
  simp only [le_def, totalNanos]
  omega

end Instant
end BoundedCache
