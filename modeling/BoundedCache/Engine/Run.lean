import BoundedCache.Engine.Basic

/-! # Runs of requests on an engine -/
namespace BoundedCache

/-- What an engine can be asked to do; the time is part of the request. -/
inductive Request (K V : Type)
  | get (key : K) (now : Instant)
  | put (key : K) (value : V) (ttl : Duration) (now : Instant)
  | remove (key : K)
  | contains (key : K)
  | size
  | clear
  | sweep (cursor budget : Nat) (now : Instant)
  | purge (now : Instant)

inductive Answer (V : Type)
  | done
  | read (result : Except MissReason V)
  | removed (value? : Option V)
  | found (known : Bool)
  | count (n : Nat)
  | swept (progress : SweepProgress)

/-- A request, or a change of the table behind the engine's back: a key is bound to any slot or
unbound. -/
inductive Event (K V : Type)
  | request (r : Request K V)
  | bind (key : K) (slot : Nat)
  | unbind (key : K)

namespace Engine
variable {K V : Type} [DecidableEq K]

def step (e : Engine K V) : Request K V → Answer V × Engine K V
  | .get key now => (e.get key now).map .read id
  | .put key value ttl now => (.done, e.put key value ttl now)
  | .remove key => (e.remove key).map .removed id
  | .contains key => (.found (e.contains key), e)
  | .size => (.count e.size, e)
  | .clear => (.done, e.clear)
  | .sweep cursor budget now => (e.sweep cursor budget now).map .swept id
  | .purge now => (e.purge now).map .count id

/-- The answers to requests made one after another, and the engine they leave. -/
def run (e : Engine K V) : List (Request K V) → List (Answer V) × Engine K V
  | [] => ([], e)
  | r :: rest =>
    let (answer, e) := e.step r
    let (answers, e) := e.run rest
    (answer :: answers, e)

def bind (e : Engine K V) (key : K) (slot : Nat) : Engine K V :=
  e.setTable (e.table.insert key slot)

def unbind (e : Engine K V) (key : K) : Engine K V := e.setTable (e.table.erase key)

def apply (e : Engine K V) : Event K V → Engine K V
  | .request r => (e.step r).2
  | .bind key slot => e.bind key slot
  | .unbind key => e.unbind key

/-- The engine after events one after another. -/
def applyAll (e : Engine K V) (events : List (Event K V)) : Engine K V := events.foldl apply e

end Engine
end BoundedCache
