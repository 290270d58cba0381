import BoundedCache.Text.Numeral
import Mathlib.Data.Nat.Digits.Defs

/-! # Numerals as bytes

A numeral is read from a text, but what a numeral is can be said of the bytes alone: every byte of one
stands for a character by itself.
-/
namespace BoundedCache

namespace Text

theorem toNat_ofUInt8 (b : UInt8) : (Char.ofUInt8 b).toNat = b.toNat := UInt8.toNat_toUInt32 b

theorem toUInt8_ofUInt8 (b : UInt8) : (Char.ofUInt8 b).toUInt8 = b := UInt8.toUInt8_toUInt32 b

theorem ofUInt8_toUInt8 {c : Char} (ascii : c.toNat ≤ 127) : Char.ofUInt8 c.toUInt8 = c := by
  rw [← Char.toNat_inj, toNat_ofUInt8]
  exact (UInt32.toNat_toUInt8 c.val).trans (Nat.mod_eq_of_lt (Nat.lt_of_le_of_lt ascii (by decide)))

theorem utf8EncodeChar_ofUInt8 {b : UInt8} (ascii : b.toNat ≤ 127) :
    String.utf8EncodeChar (Char.ofUInt8 b) = [b] := by
  have hsize : (Char.ofUInt8 b).utf8Size = 1 :=
    Char.utf8Size_eq_one_iff.2 (Nat.le_trans (Nat.le_of_eq (toNat_ofUInt8 b)) ascii)
  rw [String.utf8EncodeChar_eq_singleton hsize]
  exact congrArg ([·]) (toUInt8_ofUInt8 b)

/-- Bytes of ASCII are the bytes of the characters with the same numbers. -/
theorem utf8Encode_map_ofUInt8 {bytes : List UInt8} (ascii : ∀ b ∈ bytes, b.toNat ≤ 127) :
    (bytes.map Char.ofUInt8).utf8Encode = bytes.toByteArray := by
  suffices h : (bytes.map Char.ofUInt8).flatMap String.utf8EncodeChar = bytes by
    rw [List.utf8Encode, h]
  induction bytes with
  | nil => rfl
  | cons b bytes ih =>
    obtain ⟨hb, hbytes⟩ := List.forall_mem_cons.1 ascii
    rw [List.map_cons, List.flatMap_cons, utf8EncodeChar_ofUInt8 hb, ih hbytes, List.singleton_append]

end Text

namespace Numeral
open Text
variable {text : String} {n : UInt64} {digits : List Char} {plus figures : List UInt8}

/-! ## Numerals as characters -/

theorem foldlM_zero_eq_some_iff :
    (if digits = [] then none else digits.foldlM push? 0) = some n ↔
      digits ≠ [] ∧ (∀ c ∈ digits, c.isDigit) ∧ value digits = n.toNat := by
  rw [Option.ite_none_left_eq_some, foldlM_push?_eq_some_iff]
  rfl

/-- A digit is no sign, so the sign of a numeral is known by its first character. -/
theorem word?_eq_some_iff :
    word? text = some n ↔ ∃ sign digits, text.toList = sign ++ digits ∧
      (sign = [] ∨ sign = ['+']) ∧ digits ≠ [] ∧ (∀ c ∈ digits, c.isDigit) ∧
      value digits = n.toNat := by
  simp only [word?, foldlM_zero_eq_some_iff]
  constructor
  · intro h
    split at h
    · rename_i rest hplus
      exact ⟨['+'], rest, hplus, .inr rfl, h⟩
    · exact ⟨[], text.toList, rfl, .inl rfl, h⟩
  · rintro ⟨sign, digits, htext, rfl | rfl, hne, hdigits, hvalue⟩
    · rw [List.nil_append] at htext
      split
      · rename_i rest hplus
        have hmem : '+' ∈ digits := htext ▸ hplus ▸ List.mem_cons_self
        exact absurd (hdigits _ hmem) (by decide)
      · rw [htext]
        exact ⟨hne, hdigits, hvalue⟩
    · rw [htext]
      exact ⟨hne, hdigits, hvalue⟩

/-! ## Numerals as bytes -/

/-- Figures of ASCII, perhaps after a plus sign. -/
structure Spelled (plus figures : List UInt8) : Prop where
  plus_eq : plus = [] ∨ plus = ['+'.toUInt8]
  ne_nil : figures ≠ []
  figure : ∀ b ∈ figures, '0'.toUInt8 ≤ b ∧ b ≤ '9'.toUInt8

/-- The bytes write the number in decimal, with any zeros in front. -/
def Denotes (bytes : ByteArray) (n : Nat) : Prop :=
  ∃ plus figures, Spelled plus figures ∧ bytes = (plus ++ figures).toByteArray ∧
    n = Nat.ofDigits 10 (figures.reverse.map fun b => (b - '0'.toUInt8).toNat)

theorem isDigit_ofUInt8_iff {b : UInt8} :
    (Char.ofUInt8 b).isDigit ↔ '0'.toUInt8 ≤ b ∧ b ≤ '9'.toUInt8 := by
  rw [Char.isDigit_iff_toNat, toNat_ofUInt8, UInt8.le_iff_toNat_le, UInt8.le_iff_toNat_le]
  rfl

theorem map_ofUInt8_toUInt8 (hdigits : ∀ c ∈ digits, c.isDigit) :
    (digits.map Char.toUInt8).map Char.ofUInt8 = digits := by
  rw [List.map_map]
  refine (List.map_congr_left fun c hc => ofUInt8_toUInt8 ?_).trans (List.map_id digits)
  exact Nat.le_trans (Char.isDigit_iff_toNat.1 (hdigits c hc)).2 (by decide)

theorem value_eq_ofDigits (digits : List Char) :
    value digits = Nat.ofDigits 10 (digits.reverse.map fun c => c.toNat - '0'.toNat) := by
  rw [Nat.ofDigits_eq_foldr, List.foldr_map, List.foldr_reverse, value, Nat.ofDigitChars]
  congr 1
  funext n c
  exact Nat.add_comm ..

namespace Spelled

theorem ascii (h : Spelled plus figures) : ∀ b ∈ plus ++ figures, b.toNat ≤ 127 := by
  intro b hb
  rcases List.mem_append.1 hb with hb | hb
  · rcases h.plus_eq with rfl | rfl
    · cases hb
    · rw [List.mem_singleton.1 hb]
      decide
  · exact Nat.le_trans (UInt8.le_iff_toNat_le.1 (h.figure b hb).2) (by decide)

theorem toByteArray_eq_iff (h : Spelled plus figures) :
    text.toByteArray = (plus ++ figures).toByteArray ↔
      text.toList = plus.map Char.ofUInt8 ++ figures.map Char.ofUInt8 := by
  rw [← utf8Encode_map_ofUInt8 h.ascii, ← String.toByteArray_ofList, String.toByteArray_inj,
    ← String.toList_inj, String.toList_ofList, List.map_append]

theorem value_eq (h : Spelled plus figures) :
    value (figures.map Char.ofUInt8) =
      Nat.ofDigits 10 (figures.reverse.map fun b => (b - '0'.toUInt8).toNat) := by
  rw [value_eq_ofDigits, ← List.map_reverse, List.map_map]
  refine congrArg _ (List.map_congr_left fun b hb => ?_)
  rw [UInt8.toNat_sub_of_le _ _ (h.figure b (List.mem_reverse.1 hb)).1, Function.comp, toNat_ofUInt8]
  rfl

theorem of_isDigit (hdigits : ∀ c ∈ digits, c.isDigit) (hne : digits ≠ [])
    (hplus : plus = [] ∨ plus = ['+'.toUInt8]) : Spelled plus (digits.map Char.toUInt8) := by
  refine ⟨hplus, fun hnil => hne (List.map_eq_nil_iff.1 hnil), fun b hb => ?_⟩
  have hmem := List.mem_map_of_mem (f := Char.ofUInt8) hb
  rw [map_ofUInt8_toUInt8 hdigits] at hmem
  exact isDigit_ofUInt8_iff.1 (hdigits _ hmem)

end Spelled

/-- Figures are read up to the largest word, however many zeros stand in front, and nothing else is. -/
theorem word?_eq_some_iff_denotes : word? text = some n ↔ Denotes text.toByteArray n.toNat := by
  rw [word?_eq_some_iff]
  constructor
  · rintro ⟨sign, digits, htext, hsign, hne, hdigits, hvalue⟩
    obtain ⟨plus, hplus, rfl⟩ : ∃ plus : List UInt8, (plus = [] ∨ plus = ['+'.toUInt8]) ∧
        sign = plus.map Char.ofUInt8 := by
      rcases hsign with rfl | rfl
      · exact ⟨[], .inl rfl, rfl⟩
      · exact ⟨['+'.toUInt8], .inr rfl, rfl⟩
    have hspelled := Spelled.of_isDigit hdigits hne hplus
    have hback := map_ofUInt8_toUInt8 hdigits
    refine ⟨plus, digits.map Char.toUInt8, hspelled, hspelled.toByteArray_eq_iff.2 ?_, ?_⟩
    · rw [hback, htext]
    · rw [← hspelled.value_eq, hback, hvalue]
  · rintro ⟨plus, figures, hspelled, hbytes, hvalue⟩
    refine ⟨plus.map Char.ofUInt8, figures.map Char.ofUInt8,
      hspelled.toByteArray_eq_iff.1 hbytes, ?_,
      fun hnil => hspelled.ne_nil (List.map_eq_nil_iff.1 hnil), fun c hc => ?_, ?_⟩
    · rcases hspelled.plus_eq with rfl | rfl
      · exact .inl rfl
      · exact .inr rfl
    · obtain ⟨b, hb, rfl⟩ := List.mem_map.1 hc
      exact isDigit_ofUInt8_iff.2 (hspelled.figure b hb)
    · rw [hspelled.value_eq, hvalue]

/-- Bytes that denote a number are a text. -/
theorem Denotes.exists_text {bytes : ByteArray} {n : Nat} (h : Denotes bytes n) :
    ∃ text : String, text.toByteArray = bytes := by
  obtain ⟨plus, figures, hspelled, rfl, -⟩ := h
  exact ⟨.ofList (plus.map Char.ofUInt8 ++ figures.map Char.ofUInt8),
    hspelled.toByteArray_eq_iff.2 String.toList_ofList⟩

end Numeral
end BoundedCache
