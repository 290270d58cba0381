import BoundedCache.Policy
import BoundedCache.Json.Number
import BoundedCache.Text.Quoted

/-! # What can be wrong with a configuration -/
namespace BoundedCache

namespace Config

/-- The fields of a configuration in their order. -/
inductive Field
  | policy | capacity | sweepInterval | sweepBatch
deriving DecidableEq

namespace Field

def name : Field → String
  | policy => "policy"
  | capacity => "capacity"
  | sweepInterval => "sweep_interval_secs"
  | sweepBatch => "sweep_batch"

def all : List Field := [policy, capacity, sweepInterval, sweepBatch]

def ofName? (name : String) : Option Field := all.find? fun field => decide (field.name = name)

/-- What the number in a field is called: a size, or a number of 64 bits. -/
def numberType : Field → String
  | sweepInterval => "u64"
  | _ => "usize"

end Field

/-- A value that was found where another kind was expected. -/
inductive Found
  | null
  | bool (b : Bool)
  | integer (n : Int)
  | float (x : Float)
  | string (text : String)
  | sequence
  | map

def Found.message : Found → String
  | null => "null"
  | bool b => s!"boolean `{b}`"
  | integer n => s!"integer `{n}`"
  | float x => s!"floating point `{Json.floatLayout.writeFloat x}`"
  | string text => "string " ++ Text.quote text
  | sequence => "sequence"
  | map => "map"

/-- What was expected. -/
inductive Wanted
  | config
  | number (field : Field)
  | unit
deriving DecidableEq

def Wanted.message : Wanted → String
  | config => "struct CacheConfig"
  | number field => field.numberType
  | unit => "unit"

/-- What can be wrong with a document: it is no document at all, or it has another shape than a
configuration. -/
inductive DocumentFault
  | malformed
  | invalidType (found : Found) (wanted : Wanted)
  | negativeNumber (n : Nat) (field : Field)
  | unknownVariant (name : String)
  | duplicateField (field : Field)

def DocumentFault.message : DocumentFault → String
  | malformed => "(syntax)"
  | invalidType found wanted => s!"invalid type: {found.message}, expected {wanted.message}"
  | negativeNumber n field =>
    s!"invalid value: integer `-{n}`, expected {(Wanted.number field).message}"
  | unknownVariant name => s!"unknown variant `{name}`, expected `lru` or `lfu`"
  | duplicateField field => s!"duplicate field `{field.name}`"

end Config

/-- What can be wrong with a configuration. -/
inductive ConfigFault
  | capacityNotPositive
  | intervalNotPositive
  | batchNotPositive
  | unsupportedPolicy (fault : UnsupportedPolicy)
  | document (fault : Config.DocumentFault)
  | other (detail : String)

def ConfigFault.message : ConfigFault → String
  | capacityNotPositive => "capacity must be positive"
  | intervalNotPositive => "sweep interval must be positive"
  | batchNotPositive => "sweep batch must be positive"
  | unsupportedPolicy fault => fault.message
  | document fault => fault.message
  | other detail => detail

end BoundedCache
