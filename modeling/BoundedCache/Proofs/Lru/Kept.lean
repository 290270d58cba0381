import BoundedCache.Proofs.Lru.Operations
import BoundedCache.Proofs.Requests

/-! # What the requests to a least recently used engine keep

A request removes entries, uses one, changes its value or stores one more, and does nothing else. So a
property that holds after each of these, whatever the links and the table say, holds after every
request.
-/
namespace BoundedCache.Lru
variable {K V : Type} [DecidableEq K] {e : Lru K V} {P Q : Lru K V → Prop}

/-- The first property outlasts removals, uses and new values. The second one holds with it, and after
one more entry is stored. -/
structure Kept (P Q : Lru K V → Prop) : Prop where
  detach : ∀ {e : Lru K V}, P e → ∀ i, P (e.detach i).2
  use : ∀ {e : Lru K V} {k : K} {i : Nat}, P e → e.table.get? k = some i →
    P { e with queue := e.queue.moveToFront i }
  setValue : ∀ {e : Lru K V}, P e → ∀ i v, P { e with queue := e.queue.setValue i v }
  weaken : ∀ {e : Lru K V}, P e → Q e
  withNew : ∀ {e : Lru K V}, P e → ∀ a, Q (e.withNew a)
  clear : ∀ {e : Lru K V}, P e → Q e.clear

namespace Kept

theorem evict (h : Kept P Q) (he : P e) : P e.evict := by
  rw [Lru.evict]
  split
  · split
    · exact he
    · exact h.detach he _
  · exact he

theorem roomy (h : Kept P Q) (he : P e) : P (Inv.roomy e) := by
  rw [Inv.roomy]
  split
  · exact h.evict he
  · exact he

theorem get (h : Kept P Q) (he : P e) (k : K) (now : Instant) : P (e.get k now).2 := by
  rw [Lru.get]
  split
  · exact he
  · rename_i i hk
    split
    · exact he
    · split
      · exact h.detach he i
      · simp only
        split <;> exact h.use he hk

theorem put (h : Kept P Q) (he : P e) (k : K) (v : V) (ttl : Duration) (now : Instant) :
    Q (e.put k v ttl now) := by
  by_cases hc : e.capacity = 0
  · rw [Inv.put_zero hc]
    exact h.weaken he
  · cases hk : e.table.get? k with
    | some i =>
      rw [Inv.put_tracked hk hc]
      have hset := h.setValue he i v
      exact h.weaken (h.use hset hk)
    | none =>
      rw [Inv.put_new hk hc]
      exact h.withNew (h.roomy he) _

theorem remove (h : Kept P Q) (he : P e) (k : K) : P (e.remove k).2 := by
  rw [Lru.remove]
  split
  · exact he
  · exact h.detach he _

theorem reclaim (h : Kept P Q) (he : P e) (now : Instant) (i : Nat) : P (e.reclaim now i).2 := by
  rw [Lru.reclaim]
  split
  · split
    · exact h.detach he i
    · exact he
  · exact he

theorem visit (h : Kept P Q) (he : P e) (now : Instant) (slots : List Nat) :
    P (Sweep.visit (Lru.reclaim now) slots e).2 :=
  Sweep.visit_induction (Lru.reclaim now) (motive := fun _ _ e => P e)
    (fun _ i _ _ he => h.reclaim he now i) he slots

theorem sweep (h : Kept P Q) (he : P e) (cursor budget : Nat) (now : Instant) :
    P (e.sweep cursor budget now).2 := h.visit he now _

theorem sweepAll (h : Kept P Q) (he : P e) (budget : Nat) (now : Instant) :
    P (e.sweepAll budget now).2 :=
  Sweep.pass_induction (fun cursor e => Lru.sweep e cursor budget now) (motive := P)
    (fun cursor _ he => h.sweep he cursor budget now) _ _ he

theorem step (h : Kept P Q) (he : P e) (r : Request K V) :
    ∃ e', ((Engine.lru e).step r).2 = .lru e' ∧ Q e' := by
  cases r with
  | get k now => exact ⟨_, rfl, h.weaken (h.get he k now)⟩
  | put k v ttl now => exact ⟨_, rfl, h.put he k v ttl now⟩
  | remove k => exact ⟨_, rfl, h.weaken (h.remove he k)⟩
  | contains k => exact ⟨_, rfl, h.weaken he⟩
  | size => exact ⟨_, rfl, h.weaken he⟩
  | clear => exact ⟨_, rfl, h.clear he⟩
  | sweep cursor budget now => exact ⟨_, rfl, h.weaken (h.sweep he cursor budget now)⟩
  | purge now => exact ⟨_, rfl, h.weaken (h.sweepAll he Word.max now)⟩

/-- Whatever is done to the table between the requests, a property that does not depend on it holds
after all of them. -/
theorem applyAll {P : Nat → Lru K V → Prop} (h : ∀ n, Kept (P n) (P (n + 1)))
    (setTable : ∀ {n : Nat} {e : Lru K V}, P n e → ∀ table, P n { e with table })
    (he : P 0 e) (events : List (Event K V)) :
    ∃ e', (Engine.lru e).applyAll events = .lru e' ∧ P (events.countP Event.isRequest) e' := by
  refine Engine.applyAll_induction
    (motive := fun n engine => ∃ e, engine = .lru e ∧ P n e) ?_ ?_ ⟨e, rfl, he⟩ events
  · rintro n _ r ⟨e, rfl, he⟩
    exact (h n).step he r
  · rintro n _ table ⟨e, rfl, he⟩
    exact ⟨_, rfl, setTable he table⟩

end Kept
end BoundedCache.Lru
