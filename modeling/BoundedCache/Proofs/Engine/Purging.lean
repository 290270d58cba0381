import BoundedCache.Proofs.Engine.Order
import BoundedCache.Proofs.Expiry

/-! # Sweeps at different times come to one at the last of them

What has expired stays expired, and what a sweep leaves it does not touch. So it makes no difference to
what is left in the end whether there were sweeps before.
-/
namespace BoundedCache

namespace Sweep
variable {K V : Type} {f g : Nat → Option (Entry K V)} {s t : Instant}

/-- What expires later is doomed later, in the slots that are left. -/
theorem doomed_or_doomed (hst : s ≤ t)
    (left : ∀ j, g j = if doomed f s (fun _ => true) j then none else f j) (i : Nat) :
    (doomed f s (fun _ => true) i || doomed g t (fun _ => true) i) =
      doomed f t (fun _ => true) i := by
  have hi := left i
  cases hf : f i with
  | none =>
    rw [hf, ite_self] at hi
    rw [doomed_of_eq_none hf, doomed_of_eq_none hf, doomed_of_eq_none hi]
    rfl
  | some a =>
    cases hx : a.isExpired s with
    | true => simp [doomed, hf, hx, Entry.isExpired_of_le hx hst]
    | false =>
      -- the earlier sweep leaves the slot as it was, so the later one decides
      have hstays : doomed f s (fun _ => true) i = false := by simp [doomed, hf, hx]
      rw [hstays, if_neg Bool.false_ne_true] at hi
      rw [hstays, doomed, doomed, hi, Bool.false_or]

end Sweep

namespace Engine
variable {K V : Type} [DecidableEq K] {e e' e'' : Engine K V} {s t : Instant}
  {slots : Nat → List Nat}

/-- A sweep of all slots leaves the order of the entries that stay alone. -/
theorem Ordered.purge (h : e.Ordered slots) (hcount : e.slotCount ≤ Word.max) (now : Instant) :
    (e.purge now).2.Ordered (remaining (Sweep.doomed e.entryAt? now fun _ => true) slots) := by
  cases e with
  | lru e => exact fun f => ((h f).purge hcount now).inv
  | lfu e => exact (Lfu.Inv.purge h hcount now).inv

/-- An engine without the entries that have expired at a time, the others in their order. -/
structure Purged (t : Instant) (e e' : Engine K V) : Prop where
  swept : Swept e (Sweep.doomed e.entryAt? t fun _ => true) e'
  ordered : ∀ slots, e.Ordered slots →
    e'.Ordered (remaining (Sweep.doomed e.entryAt? t fun _ => true) slots)

theorem Sound.purged (h : e.Sound) (hcount : e.slotCount ≤ Word.max) (t : Instant) :
    Purged t e (e.purge t).2 :=
  ⟨h.purge hcount t, fun _ hordered => hordered.purge hcount t⟩

namespace Purged

/-- The later of two sweeps is all that shows. -/
theorem trans (h : Purged s e e') (h' : Purged t e' e'') (hst : s ≤ t) : Purged t e e'' := by
  have hgone : (fun i => Sweep.doomed e.entryAt? s (fun _ => true) i ||
      Sweep.doomed e'.entryAt? t (fun _ => true) i) = Sweep.doomed e.entryAt? t fun _ => true :=
    funext (Sweep.doomed_or_doomed hst h.swept.entryAt?_eq)
  refine ⟨hgone ▸ h.swept.trans h'.swept, fun slots hordered => ?_⟩
  rw [← hgone, ← remaining_remaining]
  exact h'.ordered _ (h.ordered slots hordered)

theorem entryAt?_eq (h : Purged t e e') (i : Nat) :
    e'.entryAt? i = (e.entryAt? i).filter fun a => !a.isExpired t := by
  rw [h.swept.entryAt?_eq]
  cases hi : e.entryAt? i with
  | none => rw [ite_self, Option.filter_none]
  | some a =>
    rw [Sweep.doomed, hi, Option.any_some, Bool.true_and, Option.filter_some]
    cases a.isExpired t <;> rfl

theorem find?_eq (h : Purged t e e') (hsound : e.Sound) (k : K) :
    e'.find? k = (e.find? k).filter fun a => !a.isExpired t := by
  rw [find?, find?, h.swept.table_eq hsound]
  cases hk : e.table.get? k with
  | none => rfl
  | some i =>
    obtain ⟨a, hi, -⟩ := hsound.tracks.exists_entry hk
    have hleft := h.entryAt?_eq i
    rw [Option.bind_some, ← hleft, Option.filter_some, Sweep.doomed, hi, Option.any_some,
      Bool.true_and]
    rw [hi, Option.filter_some] at hleft
    cases hx : a.isExpired t with
    | false => rfl
    | true =>
      rw [hx] at hleft
      exact hleft.symm

theorem order?_eq (h : Purged t e e') (hordered : e.Ordered slots) (f : Nat) :
    e'.order? f = some (((slots f).filterMap e.entryAt?).filter fun a => !a.isExpired t) := by
  rw [(h.ordered slots hordered).order?_eq, remaining, List.filter_filterMap, List.filterMap_filter]
  congr 1
  apply List.filterMap_congr
  intro i _
  rw [← h.entryAt?_eq, h.swept.entryAt?_eq]
  cases Sweep.doomed e.entryAt? t (fun _ => true) i <;> rfl

end Purged
end Engine
end BoundedCache
