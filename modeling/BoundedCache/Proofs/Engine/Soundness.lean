import BoundedCache.Proofs.Engine.Changes
import BoundedCache.Proofs.Lfu.Check
import BoundedCache.Proofs.Lru.Check

/-! # What every run of an engine keeps, whatever its policy -/
namespace BoundedCache

/-- The request is not made before a time. -/
def Request.NotBefore {K V : Type} (t : Instant) : Request K V → Prop
  | .get _ now => t ≤ now
  | .put _ _ _ now => t ≤ now
  | .sweep _ _ now => t ≤ now
  | .purge now => t ≤ now
  | .remove _ | .contains _ | .size | .clear => True

instance {K V : Type} (t : Instant) (r : Request K V) : Decidable (r.NotBefore t) :=
  match r with
  | .get _ now | .put _ _ _ now | .sweep _ _ now | .purge now =>
    inferInstanceAs (Decidable (t ≤ now))
  | .remove _ | .contains _ | .size | .clear => inferInstanceAs (Decidable True)

namespace Engine
variable {K V : Type} [DecidableEq K] {e e' e'' : Engine K V} {m n : Nat}

theorem Sound.check_eq (h : e.Sound) : e.check = .ok () := by
  cases e with
  | lru e =>
    obtain ⟨is, h⟩ := h
    rw [check, h.checked.check_eq]
    rfl
  | lfu e =>
    obtain ⟨slots, h⟩ := h
    obtain ⟨chain, hchain⟩ := h.checked
    rw [check, hchain.check_eq h.wellFormed]
    rfl

/-- A sound engine that some requests may leave behind, with one more slot for each at the most. -/
structure Steady (n : Nat) (e e' : Engine K V) : Prop where
  sound : e'.Sound
  capacity_eq : e'.capacity = e.capacity
  slotCount_le : e'.slotCount ≤ e.slotCount + n

theorem Sound.steady (h : e.Sound) (n : Nat) : Steady n e e := ⟨h, rfl, Nat.le_add_right _ _⟩

theorem Swept.steady {gone : Nat → Bool} (hswept : Swept e gone e') : Steady 0 e e' :=
  ⟨hswept.sound, hswept.capacity_eq, Nat.le_of_eq hswept.slotCount_eq⟩

theorem Steady.trans (h : Steady m e e') (h' : Steady n e' e'') : Steady (m + n) e e'' where
  sound := h'.sound
  capacity_eq := h'.capacity_eq.trans h.capacity_eq
  slotCount_le := by
    have hle := h.slotCount_le
    have hle' := h'.slotCount_le
    omega

namespace Sound

theorem steady_step (h : e.Sound) (r : Request K V) : Steady 1 e (e.step r).2 :=
  have hchange := h.change_step r
  ⟨hchange.sound h, hchange.capacity_eq, hchange.slotCount_le h⟩

theorem steady_run (h : e.Sound) (requests : List (Request K V)) :
    Steady requests.length e (e.run requests).2 := by
  induction requests generalizing e with
  | nil => exact h.steady 0
  | cons r rest ih =>
    have hstep := h.steady_step r
    rw [List.length_cons, Nat.add_comm]
    exact hstep.trans (ih hstep.sound)

theorem steady_clear (h : e.Sound) : Steady 0 e e.clear := by
  refine ⟨?_, ?_, h.slotCount_clear_le⟩
  · rw [clear_eq]
    exact .new ..
  · rw [clear_eq, capacity_new]

theorem steady_sweep (h : e.Sound) (cursor budget : Nat) (now : Instant) :
    Steady 0 e (e.sweep cursor budget now).2 :=
  (h.sweep cursor budget now).steady

theorem steady_sweepAll (h : e.Sound) (budget : Nat) (now : Instant) :
    Steady 0 e (e.sweepAll budget now).2 := by
  obtain ⟨gone, hswept⟩ := h.exists_swept_sweepAll budget now
  exact hswept.steady

end Sound

/-- A sound engine whose slots words can count, even after so many more requests. Cursors are words,
so an arena with more slots than that could not be swept to its end; each request adds one slot at
the most, and the capacity bounds them too. -/
structure Roomy (n : Nat) (e : Engine K V) : Prop where
  sound : e.Sound
  fits : min (e.capacity + Lru.sentinels) (e.slotCount + n) ≤ Word.max

namespace Roomy

theorem new (policy : Policy) {capacity : Nat} (fits : min capacity n + Lru.sentinels ≤ Word.max) :
    Roomy n (new policy capacity : Engine K V) := by
  refine ⟨.new policy capacity, ?_⟩
  have hcount := slotCount_new_le (K := K) (V := V) policy capacity
  rw [capacity_new]
  omega

theorem slotCount_le_max (h : Roomy n e) : e.slotCount ≤ Word.max := by
  have hle := h.sound.slotCount_le
  have hfits := h.fits
  omega

theorem steady (h : Roomy (m + n) e) (hsteady : Steady m e e') : Roomy n e' := by
  refine ⟨hsteady.sound, ?_⟩
  have hcount := hsteady.slotCount_le
  have hfits := h.fits
  rw [hsteady.capacity_eq]
  omega

theorem steady_zero (h : Roomy n e) (hsteady : Steady 0 e e') : Roomy n e' := by
  rw [← Nat.zero_add n] at h
  exact h.steady hsteady

end Roomy

end Engine
end BoundedCache
