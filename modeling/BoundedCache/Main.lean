import BoundedCache.Demo

/-! # The command line: the demonstration with a configuration from the environment -/
namespace BoundedCache

/-- The variables of the process. -/
def readEnvironment : IO Config.Environment := do
  let read (v : Config.Variable) : IO (Option ByteArray) := do
    return (← IO.getEnv v.name).map String.toUTF8
  let policy ← read .policy
  let capacity ← read .capacity
  let sweepInterval ← read .sweepInterval
  let sweepBatch ← read .sweepBatch
  return fun
    | .policy => policy
    | .capacity => capacity
    | .sweepInterval => sweepInterval
    | .sweepBatch => sweepBatch

/-- One line for each read and one for the size. -/
def report (s : Session String String) : List String :=
  let (results, s) := Demo.run s
  results.map (fun (key, result) =>
    match result with
    | .ok value => s!"{key} -> {value}"
    | .error e => s!"{key} -> {e.message}") ++ [s!"{s.cache.size} entries tracked"]

end BoundedCache

def main : IO UInt32 := do
  let env ← BoundedCache.readEnvironment
  match BoundedCache.Session.open? (BoundedCache.Demo.config env) true with
  | .error e =>
    IO.eprintln s!"Error: {e.message}"
    return 1
  | .ok s =>
    for line in BoundedCache.report s do
      IO.println line
    return 0
