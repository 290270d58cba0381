import BoundedCache.Entry
import Mathlib.Tactic.Common

/-! # The lives of entries on the clock

An entry expires its time to live after its creation, as whole nanoseconds have it. No request changes
the life of an entry that is tracked; the predicates here follow the lives from one state to the next.
-/
namespace BoundedCache

namespace Instant
variable {r s t : Instant} {d : Duration}

theorem le_trans (h : r ≤ s) (h' : s ≤ t) : r ≤ t := by
  rw [le_iff_totalNanos_le] at h h' ⊢
  exact Nat.le_trans h h'

theorem totalNanos_ofMillis (ms : Nat) : (ofMillis ms).totalNanos = ms * 1000000 := by
  simp only [ofMillis, totalNanos]
  omega

theorem totalNanos_within? {secs nanos : Nat} {h : nanos < 1000000000}
    (ht : within? secs nanos h = some t) : t.totalNanos = secs * 1000000000 + nanos := by
  unfold within? at ht
  split at ht
  · cases ht
    rfl
  · cases ht

/-- A sum of seconds and nanoseconds with its carry is the sum of the whole lengths. -/
theorem totalNanos_add? (h : t.add? d = some s) : s.totalNanos = t.totalNanos + d.totalNanos := by
  have ht := t.nanos_lt
  have hd := d.nanos_lt
  rw [add?] at h
  split at h
  · rw [totalNanos_within? h]
    simp only [totalNanos, Duration.totalNanos]
    omega
  · rw [totalNanos_within? h]
    simp only [totalNanos, Duration.totalNanos]
    omega

theorem le_add? (h : t.add? d = some s) : t ≤ s := by
  rw [le_iff_totalNanos_le, totalNanos_add? h]
  exact Nat.le_add_right _ _

theorem isSome_within?_iff {secs nanos : Nat} {h : nanos < 1000000000} :
    (within? secs nanos h).isSome = true ↔ secs < clockEnd := by
  rw [within?]
  split
  · rename_i hlt
    exact iff_of_true rfl hlt
  · rename_i hge
    exact iff_of_false Bool.false_ne_true hge

/-- There is a sum exactly if the clock can show it, wherever the carry falls. -/
theorem isSome_add?_iff :
    (t.add? d).isSome = true ↔ t.totalNanos + d.totalNanos < clockEnd * 1000000000 := by
  have ht := t.nanos_lt
  have hd := d.nanos_lt
  rw [add?]
  split
  · rw [isSome_within?_iff]
    simp only [totalNanos, Duration.totalNanos]
    omega
  · rw [isSome_within?_iff]
    simp only [totalNanos, Duration.totalNanos]
    omega

end Instant

variable {K V : Type}

namespace Entry
variable {a : Entry K V} {now : Instant}

/-- What has expired stays expired. -/
theorem isExpired_of_le {s t : Instant} (h : a.isExpired s = true) (hle : s ≤ t) :
    a.isExpired t = true := by
  rw [isExpired_iff] at h ⊢
  obtain ⟨expiry, hexpiry, hs⟩ := h
  exact ⟨expiry, hexpiry, Instant.le_trans hs hle⟩

theorem isExpired_iff_totalNanos :
    a.isExpired now = true ↔
      a.createdAt.totalNanos + a.ttl.totalNanos < Instant.clockEnd * 1000000000 ∧
        a.createdAt.totalNanos + a.ttl.totalNanos ≤ now.totalNanos := by
  rw [isExpired_iff, expiresAt?, ← Instant.isSome_add?_iff]
  constructor
  · rintro ⟨expiry, hexpiry, hle⟩
    rw [Instant.le_iff_totalNanos_le, Instant.totalNanos_add? hexpiry] at hle
    exact ⟨Option.isSome_iff_exists.2 ⟨expiry, hexpiry⟩, hle⟩
  · rintro ⟨hsome, hle⟩
    obtain ⟨expiry, hexpiry⟩ := Option.isSome_iff_exists.1 hsome
    rw [← Instant.totalNanos_add? hexpiry, ← Instant.le_iff_totalNanos_le] at hle
    exact ⟨expiry, hexpiry, hle⟩

/-- A longer time to live ends no earlier, and not at all if the clock ends first. -/
theorem isExpired_of_ttl_le {longer : Duration} (hle : a.ttl.totalNanos ≤ longer.totalNanos)
    (hx : { a with ttl := longer }.isExpired now = true) : a.isExpired now = true := by
  rw [isExpired_iff_totalNanos] at hx ⊢
  have hsum := Nat.add_le_add_left hle a.createdAt.totalNanos
  exact ⟨Nat.lt_of_le_of_lt hsum hx.1, Nat.le_trans hsum hx.2⟩

/-- An entry has expired at a time exactly if its creation and its time to live add up to no more than
that time, in whole nanoseconds, and to less than the end of the clock. So what has expired stays
expired, and a longer time to live ends no earlier, even where it has no end. -/
theorem isExpired_exact (a : Entry K V) (now : Instant) :
    (a.isExpired now = true ↔
      a.createdAt.totalNanos + a.ttl.totalNanos < Instant.clockEnd * 1000000000 ∧
        a.createdAt.totalNanos + a.ttl.totalNanos ≤ now.totalNanos) ∧
      (∀ later, now ≤ later → a.isExpired now = true → a.isExpired later = true) ∧
      ∀ longer : Duration, a.ttl.totalNanos ≤ longer.totalNanos →
        { a with ttl := longer }.isExpired now = true → a.isExpired now = true :=
  ⟨isExpired_iff_totalNanos, fun _ hle hx => isExpired_of_le hx hle,
    fun _ hle hx => isExpired_of_ttl_le hle hx⟩

/-- The last second of the clock, entered by a carry of exactly one second, and a time to live that
is too long for the clock. -/
theorem isExpired_exact_clockEnd :
    let a : Entry Nat Nat :=
      { key := 1, value := 10, createdAt := { secs := 9223372036854775806, nanos := 999999999 }
        ttl := { secs := 0, nanos := 1 } }
    let expiry : Instant := { secs := 9223372036854775807, nanos := 0 }
    let last : Instant := { secs := 9223372036854775807, nanos := 999999999 }
    let longer : Duration := { secs := 1, nanos := 0 }
    let longest : Duration := { secs := 1, nanos := 1 }
    (a.createdAt.add? a.ttl = some expiry ∧ a.isExpired expiry = true) ∧
      (expiry ≤ last ∧ a.isExpired last = true) ∧
      (a.ttl.totalNanos ≤ longer.totalNanos ∧
        { a with ttl := longer }.isExpired last = true ∧ a.isExpired last = true) ∧
      { a with ttl := longest }.isExpired last = false := by
  intro a expiry last longer longest
  have hexpiry : a.isExpired expiry = true := (isExpired_exact a expiry).1.2 (by decide)
  have hle : expiry ≤ last := by decide
  have hlonger : { a with ttl := longer }.isExpired last = true := by decide
  have httl : a.ttl.totalNanos ≤ longer.totalNanos := by decide
  exact ⟨⟨by decide, hexpiry⟩, ⟨hle, (isExpired_exact a expiry).2.1 last hle hexpiry⟩,
    ⟨httl, hlonger, (isExpired_exact a last).2.2 longer httl hlonger⟩, by decide⟩

end Entry

/-- Something holds of the slot, the creation and the time to live of every entry. -/
def Lives (P : Nat → Instant → Duration → Prop) (entryAt : Nat → Option (Entry K V)) : Prop :=
  ∀ i a, entryAt i = some a → P i a.createdAt a.ttl

namespace Lives
variable {P : Nat → Instant → Duration → Prop} {f g : Nat → Option (Entry K V)} {i : Nat}
  {a : Entry K V}

theorem mono (h : Lives P f) (sub : ∀ j b, g j = some b → f j = some b) : Lives P g :=
  fun j b hb => h j b (sub j b hb)

theorem congr (h : Lives P f) (same : ∀ j, g j = f j) : Lives P g :=
  h.mono fun j _ hb => (same j).symm.trans hb

theorem erase (h : Lives P f) {gone : Nat → Prop} [DecidablePred gone]
    (left : ∀ j, g j = if gone j then none else f j) : Lives P g := by
  refine h.mono fun j b hb => ?_
  rw [left] at hb
  split at hb
  · cases hb
  · exact hb

theorem insert (h : Lives P f) (new : ∀ j, g j = if i = j then some a else f j)
    (ha : P i a.createdAt a.ttl) : Lives P g := by
  intro j b hb
  rw [new] at hb
  split at hb
  · rename_i hij
    cases hb
    exact hij ▸ ha
  · exact h j b hb

/-- A value counts for nothing. -/
theorem setValue (h : Lives P f) {v : V}
    (set : ∀ j, g j = if i = j then (f j).map fun a => { a with value := v } else f j) :
    Lives P g := by
  intro j b hb
  rw [set] at hb
  split at hb
  · obtain ⟨c, hc, rfl⟩ := Option.map_eq_some_iff.1 hb
    exact h j c hc
  · exact h j b hb

end Lives
end BoundedCache
