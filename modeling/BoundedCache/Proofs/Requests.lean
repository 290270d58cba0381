import BoundedCache.Engine.Run

/-! # What requests mention, and runs of them in parts -/
namespace BoundedCache

namespace Request
variable {K V : Type}

/-- The time of a request, if it has one. -/
def instant? : Request K V → Option Instant
  | .get _ now | .put _ _ _ now | .sweep _ _ now | .purge now => some now
  | .remove _ | .contains _ | .size | .clear => none

/-- The key that a request is about, if it is about one. -/
def key? : Request K V → Option K
  | .get k _ | .put k _ _ _ | .remove k | .contains k => some k
  | .size | .clear | .sweep _ _ _ | .purge _ => none

/-- When a new entry that a request stores expires, if ever. -/
def expiry? : Request K V → Option Instant
  | .put _ _ ttl now => now.add? ttl
  | _ => none

/-- The time of a batch of sweeps. -/
def sweepTime? : Request K V → Option Instant
  | .sweep _ _ now => some now
  | _ => none

def isSweep (r : Request K V) : Bool := r.sweepTime?.isSome

/-- Reads, removals and batches of sweeps. -/
def takesOut : Request K V → Bool
  | .get _ _ | .remove _ | .sweep _ _ _ => true
  | .put _ _ _ _ | .contains _ | .size | .clear | .purge _ => false

/-- The times of the sweeps are among those of all requests. -/
theorem sweepTimes_subset (script : List (Request K V)) :
    script.filterMap sweepTime? ⊆ script.filterMap instant? := by
  intro t ht
  obtain ⟨r, hr, hrt⟩ := List.mem_filterMap.1 ht
  refine List.mem_filterMap.2 ⟨r, hr, ?_⟩
  cases r with
  | sweep cursor budget now => exact hrt
  | _ => cases hrt

end Request

/-- Whether an event is a request, and not a change of the table. -/
def Event.isRequest {K V : Type} : Event K V → Bool
  | .request _ => true
  | .bind _ _ | .unbind _ => false

/-- The request to store an entry. -/
def Entry.store {K V : Type} (a : Entry K V) : Request K V := .put a.key a.value a.ttl a.createdAt

namespace Engine
variable {K V : Type} [DecidableEq K]

theorem run_cons (e : Engine K V) (r : Request K V) (rest : List (Request K V)) :
    e.run (r :: rest) =
      ((e.step r).1 :: ((e.step r).2.run rest).1, ((e.step r).2.run rest).2) := rfl

theorem run_append (e : Engine K V) (before after : List (Request K V)) :
    e.run (before ++ after) =
      ((e.run before).1 ++ ((e.run before).2.run after).1, ((e.run before).2.run after).2) := by
  induction before generalizing e with
  | nil => rfl
  | cons r rest ih => rw [List.cons_append, run_cons, ih, run_cons, List.cons_append]

/-- What holds of an engine and the number of requests made so far holds after any events, if every
request keeps it and every other table. -/
theorem applyAll_induction {motive : Nat → Engine K V → Prop}
    (request : ∀ n e r, motive n e → motive (n + 1) (e.step r).2)
    (table : ∀ n e table, motive n e → motive n (setTable e table))
    {e : Engine K V} (start : motive 0 e) (events : List (Event K V)) :
    motive (events.countP Event.isRequest) (e.applyAll events) := by
  suffices h : ∀ n e, motive n e →
      motive (n + events.countP Event.isRequest) (e.applyAll events) by
    simpa using h 0 e start
  induction events with
  | nil => exact fun n e h => h
  | cons event rest ih =>
    intro n e h
    cases event with
    | request r =>
      rw [List.countP_cons_of_pos rfl, Nat.add_comm _ 1, ← Nat.add_assoc]
      exact ih (n + 1) _ (request n e r h)
    | bind k i =>
      rw [List.countP_cons_of_neg Bool.false_ne_true]
      exact ih n _ (table n e _ h)
    | unbind k =>
      rw [List.countP_cons_of_neg Bool.false_ne_true]
      exact ih n _ (table n e _ h)

end Engine
end BoundedCache
