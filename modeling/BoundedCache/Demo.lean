import BoundedCache.Config.Environment
import BoundedCache.Session.Run

/-! # A demonstration of eviction and expiry -/
namespace BoundedCache.Demo

/-- Small enough for the demonstration to evict entries as well as to let them expire. -/
def capacity : UInt64 := 4

/-- The configuration from the environment, with the capacity of the demonstration if none is
set. -/
def config (env : Config.Environment) : Config :=
  let config := Config.ofEnvironment env
  if ((env .capacity).bind String.fromUTF8?).isSome then config else { config with capacity }

def key (n : Nat) : String := s!"Key{n}"

def value (n : Nat) : String := s!"Value{n}"

/-- The numbers of the first keys, with their times to live in seconds. -/
def seeds : List (Nat × Int) := [(1, 10), (2, 3), (3, 7), (4, 1), (5, 8)]

/-- Stores five entries, waits for two seconds and stores two more. -/
def script : List (Command String String) :=
  (seeds.map fun (n, secs) => .call (.putFor (key n) (value n) secs .seconds)) ++
    [.sleep 2000,
      .call (.put (key 6) (value 6) (.ofSecs 8)),
      .call (.put (key 7) (value 7) (.ofSecs 8))]

/-- Reads keys one after another. -/
def reads (s : Session String String) :
    List String → List (String × Except CacheError String) × Session String String
  | [] => ([], s)
  | k :: rest =>
    let (result, cache) := s.cache.get k s.instant
    let (results, s) := reads { s with cache } rest
    ((k, result) :: results, s)

/-- The results of reading three of the keys after the script. -/
def run (s : Session String String) :
    List (String × Except CacheError String) × Session String String :=
  reads (s.run script).2 [key 3, key 5, key 4]

end BoundedCache.Demo
