/-! # Machine words: natural numbers below 2 ^ 64 -/
namespace BoundedCache.Word

/-- The largest word. -/
def max : Nat := 18446744073709551615

/-- Addition that stops at the largest word. -/
def saturatingAdd (m n : Nat) : Nat := min (m + n) max

theorem saturatingAdd_of_le {m n : Nat} (h : m + n ≤ max) : saturatingAdd m n = m + n :=
  Nat.min_eq_left h

theorem one_le_toNat {n : UInt64} (h : n ≠ 0) : 1 ≤ n.toNat :=
  Nat.pos_of_ne_zero fun hzero => h (UInt64.toNat_inj.1 hzero)

end BoundedCache.Word
