import BoundedCache.Proofs.Engine.Changes

/-! # What a write leaves under its key

A write under a tracked key changes the value and nothing else, not even of an entry that has
expired; under another key a new life starts.
-/
namespace BoundedCache

theorem Duration.totalNanos_pos {d : Duration} (h : d ≠ .zero) : 0 < d.totalNanos := by
  obtain ⟨secs, nanos, hsecs, hnanos⟩ := d
  rw [totalNanos, Nat.pos_iff_ne_zero]
  intro hzero
  obtain ⟨rfl, rfl⟩ : secs = 0 ∧ nanos = 0 := by
    simp only at hzero
    omega
  exact h rfl

namespace Entry
variable {K V : Type}

/-- What was just created lives, if it has any time to live. -/
theorem isExpired_createdAt {a : Entry K V} (h : a.ttl ≠ .zero) :
    a.isExpired a.createdAt = false := by
  rw [Bool.eq_false_iff]
  intro hx
  obtain ⟨expiry, hexpiry, hle⟩ := isExpired_iff.1 hx
  have hsum := Instant.totalNanos_add? hexpiry
  have hpos := Duration.totalNanos_pos h
  rw [Instant.le_iff_totalNanos_le] at hle
  omega

/-- The entry that a write leaves, given the one that was stored before. -/
def rewritten (stored? : Option (Entry K V)) (key : K) (value : V) (ttl : Duration)
    (now : Instant) : Entry K V :=
  match stored? with
  | some a => { a with value }
  | none => { key, value, createdAt := now, ttl }

theorem value_rewritten (stored? : Option (Entry K V)) (k : K) (v : V) (ttl : Duration)
    (now : Instant) : (rewritten stored? k v ttl now).value = v := by
  cases stored? <;> rfl

/-- A write leaves an expired entry expired, and any other one alive. -/
theorem isExpired_rewritten (stored? : Option (Entry K V)) (k : K) (v : V) {ttl : Duration}
    (now : Instant) (h : ttl ≠ .zero) :
    (rewritten stored? k v ttl now).isExpired now = stored?.any (·.isExpired now) := by
  cases stored? with
  | none => exact isExpired_createdAt (a := { key := k, value := v, createdAt := now, ttl }) h
  | some a => rfl

end Entry

namespace Engine
variable {K V : Type} [DecidableEq K] {e : Engine K V} {i : Nat} {a : Entry K V} {k : K}

omit [DecidableEq K] in
theorem table_overwritten (e : Engine K V) (i : Nat) (v : V) :
    (e.overwritten i v).table = e.table := by
  cases e <;> rfl

theorem table_withNew (e : Engine K V) (a : Entry K V) :
    (e.withNew a).table = e.table.insert a.key e.nextSlot := by
  cases e <;> rfl

theorem find?_overwritten (hk : e.table.get? k = some i) (hi : e.entryAt? i = some a)
    (v : V) : (e.overwritten i v).find? k = some { a with value := v } := by
  rw [find?, table_overwritten, hk, Option.bind_some, entryAt?_overwritten, if_pos rfl, hi]
  rfl

namespace Sound

theorem find?_withNew (h : e.Sound) (a : Entry K V) : (e.withNew a).find? a.key = some a := by
  rw [find?, table_withNew, Dict.get?_insert, if_pos rfl, Option.bind_some, h.entryAt?_withNew,
    if_pos rfl]

theorem find?_put (h : e.Sound) (hc : e.capacity ≠ 0) (k : K) (v : V) (ttl : Duration)
    (now : Instant) :
    (e.put k v ttl now).find? k = some (Entry.rewritten (e.find? k) k v ttl now) := by
  cases hk : e.find? k with
  | some a =>
    obtain ⟨i, htable, hi⟩ := exists_slot hk
    rw [put_of_slot htable hc]
    exact find?_overwritten htable hi v
  | none =>
    obtain ⟨gone, hswept⟩ := h.exists_swept_withRoom hc
    rw [put_of_absent (h.table_eq_none hk) hc]
    exact hswept.sound.find?_withNew { key := k, value := v, createdAt := now, ttl }

/-- What a read finds right after a write. -/
theorem get_put (h : e.Sound) (hc : e.capacity ≠ 0) (k : K) (v : V) {ttl : Duration}
    (now : Instant) (httl : ttl ≠ .zero) :
    ((e.put k v ttl now).get k now).1 =
      if (e.find? k).any (·.isExpired now) then .error .expired else .ok v := by
  have hsound : (e.put k v ttl now).Sound := h.sound_step (.put k v ttl now)
  rw [hsound.get_tracked (h.find?_put hc k v ttl now), Entry.isExpired_rewritten _ _ _ _ httl,
    Entry.value_rewritten]

end Sound
end Engine
end BoundedCache
