import BoundedCache.Text.Blank

/-! # Eviction policies and their names -/
namespace BoundedCache

/-- Which entry makes room for a new one: the least recently or the least frequently used. -/
inductive Policy
  | lru | lfu
deriving DecidableEq

/-- A name that is no policy's, without the white space around it and in lower case. -/
structure UnsupportedPolicy where
  name : String
deriving DecidableEq

def UnsupportedPolicy.message (fault : UnsupportedPolicy) : String :=
  s!"unsupported eviction policy '{fault.name}'"

namespace Policy

def name : Policy → String
  | lru => "lru"
  | lfu => "lfu"

def ofName? (name : String) : Option Policy :=
  if name = "lru" then some lru else if name = "lfu" then some lfu else none

/-- A text without the white space around it and with the letters of ASCII in lower case. -/
def normalize (text : String) : String :=
  String.ofList ((Text.trim text.toList).map Char.toLower)

/-- Reads a policy's name, whatever its case and the white space around it. -/
def parse (text : String) : Except UnsupportedPolicy Policy :=
  match ofName? (normalize text) with
  | some policy => .ok policy
  | none => .error ⟨normalize text⟩

theorem ofName?_name (policy : Policy) : ofName? policy.name = some policy := by
  cases policy <;> decide

theorem ofName?_eq_some_iff {name : String} {policy : Policy} :
    ofName? name = some policy ↔ name = policy.name := by
  unfold ofName?
  constructor
  · intro h
    split at h
    · cases h; assumption
    · split at h
      · cases h; assumption
      · cases h
  · rintro rfl
    exact ofName?_name policy

end Policy
end BoundedCache
