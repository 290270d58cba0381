import BoundedCache.Engine.Run

/-! # Runs of an engine beside a plain model

A model answers the same requests. It only has to be told which slots a sweep visits, so it meets
each request together with the table of the engine at that moment.
-/
namespace BoundedCache

/-- An answer without the cursor of a sweep. -/
def Answer.withoutCursor {V : Type} : Answer V → Answer V
  | .swept progress => .count progress.removed
  | answer => answer

namespace Reference
variable {K V M : Type} [DecidableEq K]

/-- Requests made one after another, each with the table that the engine has then. -/
def observed (e : Engine K V) : List (Request K V) → List (Dict K Nat × Request K V)
  | [] => []
  | r :: rest => (e.table, r) :: observed (e.step r).2 rest

/-- The answers of a model to requests met one after another, and what it is left with. -/
def run (step : M → Dict K Nat → Request K V → Answer V × M) (m : M) :
    List (Dict K Nat × Request K V) → List (Answer V) × M
  | [] => ([], m)
  | (table, r) :: rest =>
    let (answer, m) := step m table r
    let (answers, m) := run step m rest
    (answer :: answers, m)

/-- A model whose every step agrees with the engine's agrees with it over whole runs. The relation
may count the requests to come. -/
theorem run_agrees {step : M → Dict K Nat → Request K V → Answer V × M}
    {Agree : Nat → Engine K V → M → Prop}
    (agree : ∀ n e m r, Agree (n + 1) e m →
      (e.step r).1.withoutCursor = (step m e.table r).1 ∧
        Agree n (e.step r).2 (step m e.table r).2)
    {e : Engine K V} {m : M} (requests : List (Request K V)) (h : Agree requests.length e m) :
    (e.run requests).1.map Answer.withoutCursor = (run step m (observed e requests)).1 ∧
      Agree 0 (e.run requests).2 (run step m (observed e requests)).2 := by
  induction requests generalizing e m with
  | nil => exact ⟨rfl, h⟩
  | cons r rest ih =>
    obtain ⟨hanswer, hnext⟩ := agree rest.length e m r h
    obtain ⟨hanswers, hlast⟩ := ih hnext
    refine ⟨?_, hlast⟩
    rw [Engine.run, observed, run, List.map_cons, hanswer, hanswers]

end Reference
end BoundedCache
