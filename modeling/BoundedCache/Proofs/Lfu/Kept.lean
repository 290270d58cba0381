import BoundedCache.Proofs.Lfu.Operations
import BoundedCache.Proofs.Requests

/-! # What the requests to a least frequently used engine keep

A request removes entries, counts a use of one, changes its value, or makes room and stores one more,
and does nothing else.
-/
namespace BoundedCache.Lfu
variable {K V : Type} [DecidableEq K] {e : Lfu K V} {P Q : Lfu K V → Prop}

/-- The first property outlasts removals and new values. The second one holds with it, and after a use
and after one more entry is stored. -/
structure Kept (P Q : Lfu K V → Prop) : Prop where
  detach : ∀ {e : Lfu K V}, P e → ∀ i, P (e.detach i).2
  setValue : ∀ {e : Lfu K V}, P e → ∀ i v, P { e with ranking := e.ranking.setValue i v }
  weaken : ∀ {e : Lfu K V}, P e → Q e
  touch : ∀ {e : Lfu K V}, P e → ∀ i, Q { e with ranking := e.ranking.touch i }
  store : ∀ {e : Lfu K V}, P e → P (roomy e) → e.capacity ≠ 0 → ∀ a, Q ((roomy e).withNew a)
  clear : ∀ {e : Lfu K V}, P e → Q e.clear

namespace Kept

theorem evict (h : Kept P Q) (he : P e) : P e.evict := by
  rw [Lfu.evict]
  split
  · exact h.detach he _
  · exact he

theorem roomy (h : Kept P Q) (he : P e) : P (roomy e) := by
  rw [Lfu.roomy]
  split
  · exact h.evict he
  · exact he

theorem get (h : Kept P Q) (he : P e) (k : K) (now : Instant) : Q (e.get k now).2 := by
  rw [Lfu.get]
  split
  · exact h.weaken he
  · split
    · exact h.weaken he
    · split
      · exact h.weaken (h.detach he _)
      · simp only
        split <;> exact h.touch he _

theorem put (h : Kept P Q) (he : P e) (k : K) (v : V) (ttl : Duration) (now : Instant) :
    Q (e.put k v ttl now) := by
  by_cases hc : e.capacity = 0
  · rw [put_zero hc]
    exact h.weaken he
  · cases hk : e.table.get? k with
    | some i =>
      rw [put_tracked hk hc]
      exact h.touch (h.setValue he i v) i
    | none =>
      rw [put_new hk hc]
      exact h.store he (h.roomy he) hc _

theorem remove (h : Kept P Q) (he : P e) (k : K) : P (e.remove k).2 := by
  rw [Lfu.remove]
  split
  · exact he
  · exact h.detach he _

theorem reclaim (h : Kept P Q) (he : P e) (now : Instant) (i : Nat) : P (e.reclaim now i).2 := by
  rw [Lfu.reclaim]
  split
  · split
    · exact h.detach he i
    · exact he
  · exact he

theorem visit (h : Kept P Q) (he : P e) (now : Instant) (slots : List Nat) :
    P (Sweep.visit (Lfu.reclaim now) slots e).2 :=
  Sweep.visit_induction (Lfu.reclaim now) (motive := fun _ _ e => P e)
    (fun _ i _ _ he => h.reclaim he now i) he slots

theorem sweep (h : Kept P Q) (he : P e) (cursor budget : Nat) (now : Instant) :
    P (e.sweep cursor budget now).2 := h.visit he now _

theorem sweepAll (h : Kept P Q) (he : P e) (budget : Nat) (now : Instant) :
    P (e.sweepAll budget now).2 :=
  Sweep.pass_induction (fun cursor e => Lfu.sweep e cursor budget now) (motive := P)
    (fun cursor _ he => h.sweep he cursor budget now) _ _ he

theorem step (h : Kept P Q) (he : P e) (r : Request K V) :
    ∃ e', ((Engine.lfu e).step r).2 = .lfu e' ∧ Q e' := by
  cases r with
  | get k now => exact ⟨_, rfl, h.get he k now⟩
  | put k v ttl now => exact ⟨_, rfl, h.put he k v ttl now⟩
  | remove k => exact ⟨_, rfl, h.weaken (h.remove he k)⟩
  | contains k => exact ⟨_, rfl, h.weaken he⟩
  | size => exact ⟨_, rfl, h.weaken he⟩
  | clear => exact ⟨_, rfl, h.clear he⟩
  | sweep cursor budget now => exact ⟨_, rfl, h.weaken (h.sweep he cursor budget now)⟩
  | purge now => exact ⟨_, rfl, h.weaken (h.sweepAll he Word.max now)⟩

/-- Whatever is done to the table between the requests, a property that does not depend on it holds
after all of them. -/
theorem applyAll {P : Nat → Lfu K V → Prop} (h : ∀ n, Kept (P n) (P (n + 1)))
    (setTable : ∀ {n : Nat} {e : Lfu K V}, P n e → ∀ table, P n { e with table })
    (he : P 0 e) (events : List (Event K V)) :
    ∃ e', (Engine.lfu e).applyAll events = .lfu e' ∧ P (events.countP Event.isRequest) e' := by
  refine Engine.applyAll_induction
    (motive := fun n engine => ∃ e, engine = .lfu e ∧ P n e) ?_ ?_ ⟨e, rfl, he⟩ events
  · rintro n _ r ⟨e, rfl, he⟩
    exact (h n).step he r
  · rintro n _ table ⟨e, rfl, he⟩
    exact ⟨_, rfl, setTable he table⟩

end Kept
end BoundedCache.Lfu
