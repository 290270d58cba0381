import BoundedCache.Word

/-! # Decimal numerals -/
namespace BoundedCache.Numeral

/-- The number that digits denote. -/
def value (digits : List Char) : Nat := Nat.ofDigitChars 10 digits 0

/-- Takes one more digit in, if it is one and the number still fits in a word. -/
def push? (n : UInt64) (c : Char) : Option UInt64 :=
  let next := 10 * n.toNat + (c.toNat - '0'.toNat)
  if c.isDigit ∧ next ≤ Word.max then some (.ofNat next) else none

/-- Reads a word: digits, perhaps after a plus sign. -/
def word? (text : String) : Option UInt64 :=
  let digits := match text.toList with
    | '+' :: rest => rest
    | cs => cs
  if digits = [] then none else digits.foldlM push? 0

theorem value_toDigits (n : Nat) : value (Nat.toDigits 10 n) = n := Nat.ofDigitChars_ten_toDigits

theorem isDigit_of_mem_toDigits {n : Nat} {c : Char} (h : c ∈ Nat.toDigits 10 n) : c.isDigit :=
  Nat.isDigit_of_mem_toDigits (by decide) (by decide) h

theorem le_ofDigitChars (digits : List Char) (n : Nat) : n ≤ Nat.ofDigitChars 10 digits n := by
  induction digits generalizing n with
  | nil => exact Nat.le_refl n
  | cons c digits ih =>
    rw [Nat.ofDigitChars_cons]
    exact Nat.le_trans (by omega) (ih _)

theorem push?_eq_some_iff {n m : UInt64} {c : Char} :
    push? n c = some m ↔ c.isDigit ∧ 10 * n.toNat + (c.toNat - '0'.toNat) = m.toNat := by
  simp only [push?, Option.ite_none_right_eq_some, Option.some.injEq, and_assoc]
  refine and_congr_right fun _ => ⟨?_, fun h => ⟨?_, ?_⟩⟩
  · rintro ⟨hle, rfl⟩
    exact (UInt64.toNat_ofNat_of_lt' (Nat.lt_succ_of_le hle)).symm
  · rw [h]
    exact Nat.le_of_lt_succ m.toNat_lt
  · rw [h]
    exact UInt64.ofNat_toNat

/-- Digits are all taken in exactly if they are digits and their number fits in a word: it is no less
than the number of the first few of them. -/
theorem foldlM_push?_eq_some_iff {digits : List Char} {n m : UInt64} :
    digits.foldlM push? n = some m ↔
      (∀ c ∈ digits, c.isDigit) ∧ Nat.ofDigitChars 10 digits n.toNat = m.toNat := by
  induction digits generalizing n with
  | nil => simp [UInt64.toNat_inj]
  | cons c digits ih =>
    rw [List.foldlM_cons, Nat.ofDigitChars_cons, List.forall_mem_cons]
    simp only [Option.bind_eq_bind, Option.bind_eq_some_iff, ih, push?_eq_some_iff]
    constructor
    · rintro ⟨next, ⟨hc, hnext⟩, hdigits, hm⟩
      exact ⟨⟨hc, hdigits⟩, by rw [hnext, hm]⟩
    · rintro ⟨⟨hc, hdigits⟩, hm⟩
      have hle := hm ▸ le_ofDigitChars digits (10 * n.toNat + (c.toNat - '0'.toNat))
      have hnext := UInt64.toNat_ofNat_of_lt' (Nat.lt_of_le_of_lt hle m.toNat_lt)
      exact ⟨.ofNat _, ⟨hc, hnext.symm⟩, hdigits, by rw [hnext, hm]⟩

end BoundedCache.Numeral
