import BoundedCache.Config.Basic
import BoundedCache.Text.Numeral

/-! # Configurations from environment variables -/
namespace BoundedCache.Config

inductive Variable
  | policy | capacity | sweepInterval | sweepBatch
deriving DecidableEq

def Variable.name : Variable → String
  | policy => "CACHE_POLICY"
  | capacity => "CACHE_CAPACITY"
  | sweepInterval => "SWEEP_INTERVAL"
  | sweepBatch => "SWEEP_BATCH"

/-- The bytes of the variables that are set. -/
abbrev Environment := Variable → Option ByteArray

/-- What a variable's text reads as; the default if it is not set, not a text or not readable. -/
def readOr {α : Type} (default : α) (read? : String → Option α) (bytes? : Option ByteArray) : α :=
  ((bytes?.bind String.fromUTF8?).bind read?).getD default

/-- Each field is read from its own variable or else has its default. -/
def ofEnvironment (env : Environment) : Config :=
  let default : Config := {}
  { policy := readOr default.policy (fun text => (Policy.parse text).toOption) (env .policy)
    capacity := readOr default.capacity Numeral.word? (env .capacity)
    sweepIntervalSecs := readOr default.sweepIntervalSecs Numeral.word? (env .sweepInterval)
    sweepBatch := readOr default.sweepBatch Numeral.word? (env .sweepBatch) }

end BoundedCache.Config
