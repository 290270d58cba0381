import BoundedCache.Require
import BoundedCache.Time
import BoundedCache.Config.Fault

/-! # The configuration of a cache -/
namespace BoundedCache

structure Config where
  policy : Policy := .lru
  capacity : UInt64 := 1000
  sweepIntervalSecs : UInt64 := 1
  /-- The slots that one batch of a sweep visits. -/
  sweepBatch : UInt64 := 256
deriving DecidableEq

namespace Config

/-- Refuses settings that no cache can have. -/
def validate (c : Config) : Except ConfigFault Unit := do
  require (c.capacity ≠ 0) .capacityNotPositive
  require (c.sweepIntervalSecs ≠ 0) .intervalNotPositive
  require (c.sweepBatch ≠ 0) .batchNotPositive

def sweepInterval (c : Config) : Duration := .ofSecs c.sweepIntervalSecs.toNat

/-- The compact document of a configuration. -/
def render (c : Config) : String :=
  "\x7b\"policy\":\"" ++ c.policy.name ++
    "\",\"capacity\":" ++ toString c.capacity.toNat ++
    ",\"sweep_interval_secs\":" ++ toString c.sweepIntervalSecs.toNat ++
    ",\"sweep_batch\":" ++ toString c.sweepBatch.toNat ++ "\x7d"

/-- A change to a configuration; an interval is cut down to whole seconds. -/
inductive Setting
  | policy (policy : Policy)
  | capacity (n : UInt64)
  | sweepInterval (d : Duration)
  | sweepBatch (n : UInt64)
  | all (c : Config)

def apply (c : Config) : Setting → Config
  | .policy policy => { c with policy }
  | .capacity n => { c with capacity := n }
  | .sweepInterval d => { c with sweepIntervalSecs := .ofNat d.secs }
  | .sweepBatch n => { c with sweepBatch := n }
  | .all c => c

/-- The default configuration after changes made one after another. -/
def ofSettings (settings : List Setting) : Config := settings.foldl apply {}

end Config
end BoundedCache
