import BoundedCache.Time

/-! # Amounts of units of time, in whole nanoseconds

Each unit splits an amount into seconds and nanoseconds in its own way. The whole length is the same
product for all of them, cut off at the longest duration.
-/
namespace BoundedCache

namespace Duration

/-- The duration of so many nanoseconds, or the longest one if the seconds do not fit in a word. -/
def ofNanos (n : Nat) : Duration := saturating (n / 1000000000) (n % 1000000000)

theorem ofNanos_of_lt {n : Nat} (big : Word.max < n / 1000000000) : ofNanos n = max :=
  saturating_of_lt big

theorem totalNanos_ofNanos_of_le {n : Nat} (fits : n / 1000000000 ≤ Word.max) :
    (ofNanos n).totalNanos = n := by
  rw [ofNanos, saturating_of_le fits]
  exact Nat.div_add_mod' n 1000000000

theorem totalNanos_max : max.totalNanos = Word.max * 1000000000 + 999999999 := rfl

theorem totalNanos_ofNanos (n : Nat) : (ofNanos n).totalNanos = min n max.totalNanos := by
  rw [totalNanos_max]
  rcases Nat.lt_or_ge Word.max (n / 1000000000) with big | fits
  · rw [ofNanos_of_lt big, totalNanos_max]
    omega
  · rw [totalNanos_ofNanos_of_le fits]
    omega

theorem totalNanos_ofNanos_mono {m n : Nat} (h : m ≤ n) :
    (ofNanos m).totalNanos ≤ (ofNanos n).totalNanos := by
  rw [totalNanos_ofNanos, totalNanos_ofNanos]
  exact Nat.le_min.2 ⟨Nat.le_trans (Nat.min_le_left ..) h, Nat.min_le_right ..⟩

end Duration

namespace TimeUnit

/-- The units from the shortest to the longest. -/
def ascending : List TimeUnit :=
  [nanoseconds, microseconds, milliseconds, seconds, minutes, hours, days]

theorem pairwise_inNanos : ascending.Pairwise fun u v => u.inNanos ≤ v.inNanos := by decide

/-- However a unit splits an amount, the parts are those of the whole length. -/
theorem toDuration_eq_ofNanos (unit : TimeUnit) (amount : Int) :
    unit.toDuration amount = .ofNanos (amount.toNat * unit.inNanos) := by
  cases unit <;> simp only [toDuration, inNanos, Duration.ofNanos] <;> congr 1 <;> omega

theorem totalNanos_toDuration_mono (unit : TimeUnit) {amount more : Int} (h : amount ≤ more) :
    (unit.toDuration amount).totalNanos ≤ (unit.toDuration more).totalNanos := by
  rw [toDuration_eq_ofNanos, toDuration_eq_ofNanos]
  exact Duration.totalNanos_ofNanos_mono (Nat.mul_le_mul_right _ (Int.toNat_le_toNat h))

theorem pairwise_totalNanos_toDuration (amount : Int) :
    (ascending.map fun unit => (unit.toDuration amount).totalNanos).Pairwise (· ≤ ·) := by
  refine List.pairwise_map.2 (pairwise_inNanos.imp fun {u v} h => ?_)
  rw [toDuration_eq_ofNanos, toDuration_eq_ofNanos]
  exact Duration.totalNanos_ofNanos_mono (Nat.mul_le_mul_left _ h)

/-- An amount that is not positive counts as nothing. The duration is exactly the product of the amount
and the length of the unit as long as the whole seconds of the product fit in a word, and else the
longest one. So a larger amount is no shorter, and neither is the same amount of a longer unit. -/
theorem toDuration_exact (unit : TimeUnit) (amount : Int) :
    let product : Int := max amount 0 * unit.inNanos
    (unit.toDuration amount).nanos < 1000000000 ∧
      (product / 1000000000 ≤ Word.max → (unit.toDuration amount).totalNanos = product) ∧
      (Word.max < product / 1000000000 → unit.toDuration amount = .max) ∧
      (∀ more, amount ≤ more →
        (unit.toDuration amount).totalNanos ≤ (unit.toDuration more).totalNanos) ∧
      (ascending.map fun unit => (unit.toDuration amount).totalNanos).Pairwise (· ≤ ·) := by
  intro product
  have hproduct : product = (amount.toNat * unit.inNanos : Nat) := by
    rw [Int.natCast_mul, Int.ofNat_toNat]
  rw [hproduct, toDuration_eq_ofNanos]
  refine ⟨Duration.nanos_lt _, fun fits => ?_, fun big => ?_,
    fun more h => toDuration_eq_ofNanos unit amount ▸ totalNanos_toDuration_mono unit h,
    pairwise_totalNanos_toDuration amount⟩
  · rw [Duration.totalNanos_ofNanos_of_le (by omega)]
  · exact Duration.ofNanos_of_lt (by omega)

/-- The last number of hours that fits and the first that does not, a carry of exactly one second, and
an amount below nothing. -/
theorem toDuration_exact_edges :
    (hours.toDuration 5124095576030431).totalNanos = 18446744073709551600000000000 ∧
      hours.toDuration 5124095576030432 = .max ∧
      (microseconds.toDuration 1000000).totalNanos = 1000000000 ∧
      (days.toDuration (-5)).totalNanos = 0 ∧
      (microseconds.toDuration 999999).totalNanos ≤ (microseconds.toDuration 1000000).totalNanos := by
  obtain ⟨-, hfits, -⟩ := toDuration_exact hours 5124095576030431
  obtain ⟨-, -, hbig, -⟩ := toDuration_exact hours 5124095576030432
  obtain ⟨-, hcarry, -⟩ := toDuration_exact microseconds 1000000
  obtain ⟨-, hnothing, -⟩ := toDuration_exact days (-5)
  obtain ⟨-, -, -, hmono, -⟩ := toDuration_exact microseconds 999999
  exact ⟨Int.ofNat_inj.1 (hfits (by decide)), hbig (by decide), Int.ofNat_inj.1 (hcarry (by decide)),
    Int.ofNat_inj.1 (hnothing (by decide)), hmono 1000000 (by decide)⟩

end TimeUnit
end BoundedCache
