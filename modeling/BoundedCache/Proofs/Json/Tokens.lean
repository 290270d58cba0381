import BoundedCache.Json.Token
import Mathlib.Data.List.Basic

/-! # The tokens of what is written without blanks

Punctuation and strings end by themselves; a number ends before a character that cannot continue it.
-/
namespace BoundedCache.Json
variable {c : Char} {cs ds rest : List Char} {n : Nat} {token : Token}

@[simp] theorem tokens_nil : tokens [] = [] := by
  rw [tokens]
  rfl

theorem tokens_of_scan (hc : isBlank c = false) (h : Token.scan (c :: cs) = some (token, rest))
    (hle : rest.length ≤ cs.length) : tokens (c :: cs) = token :: tokens rest := by
  rw [tokens, List.dropWhile_cons_of_neg (by simp [hc])]
  simp only [h]
  exact if_pos (Nat.lt_succ_of_le hle)

theorem tokens_last (hc : isBlank c = false) (h : Token.scan [c] = some (token, [])) :
    tokens [c] = [token] := by
  rw [tokens_of_scan hc h (Nat.le_refl _), tokens_nil]

/-! ## Strings -/

/-- Characters that stand for themselves in a string. -/
def Plain (cs : List Char) : Prop := ∀ c ∈ cs, c ≠ '"' ∧ c ≠ '\\' ∧ 0x20 ≤ c.toNat

theorem scanPieces_of_plain (h : Plain cs) (rest : List Char) :
    scanPieces (cs ++ '"' :: rest) = some (cs.map .char, rest) := by
  induction cs with
  | nil => rfl
  | cons c cs ih =>
    obtain ⟨⟨hquote, hslash, hle⟩, hcs⟩ := List.forall_mem_cons.1 h
    rw [List.cons_append, scanPieces, if_neg (Nat.not_lt.2 hle), ih hcs]
    · rfl
    · exact hquote
    · exact fun _ _ _ _ _ hc _ => hslash hc
    · exact fun _ _ hc _ => hslash hc

theorem decode_map_char (cs : List Char) : decode (cs.map .char) = some cs := by
  induction cs with
  | nil => rfl
  | cons c cs ih => rw [List.map_cons, decode, ih, Option.map_some]

theorem tokens_string {text : String} (h : Plain text.toList) (rest : List Char) :
    tokens ('"' :: (text.toList ++ '"' :: rest)) = .string (some text) :: tokens rest := by
  apply tokens_of_scan rfl
  · rw [Token.scan, scanPieces_of_plain h, Option.map_some]
    simp only [decode_map_char, Option.map_some, String.ofList_toList]
  · rw [List.length_append, List.length_cons]
    omega

/-! ## Numbers -/

/-- What follows does not continue a number. -/
def Ends (cs : List Char) : Prop :=
  ∀ c ∈ cs.head?, c.isDigit = false ∧ c ≠ '.' ∧ c ≠ 'e' ∧ c ≠ 'E'

theorem ends_cons (h : c.isDigit = false ∧ c ≠ '.' ∧ c ≠ 'e' ∧ c ≠ 'E') (cs : List Char) :
    Ends (c :: cs) := by
  rintro _ ⟨⟩
  exact h

theorem digits?_append (hne : ds ≠ []) (hds : ∀ d ∈ ds, d.isDigit) (hrest : Ends rest) :
    Literal.digits? (ds ++ rest) = some (ds, rest) := by
  have htake : (ds ++ rest).takeWhile Char.isDigit = ds := by
    rw [List.takeWhile_append_of_pos hds]
    cases rest with
    | nil => simp
    | cons c rest => rw [List.takeWhile_cons_of_neg (by simp [(hrest c rfl).1]), List.append_nil]
  have hdrop : (ds ++ rest).dropWhile Char.isDigit = rest := by
    rw [List.dropWhile_append_of_pos hds]
    cases rest with
    | nil => rfl
    | cons c rest => rw [List.dropWhile_cons_of_neg (by simp [(hrest c rfl).1])]
  rw [Literal.digits?, htake, hdrop]
  exact if_neg hne

/-- Only zero is written with a zero in front. -/
theorem toDigits_of_head?_eq_zero (h : (Nat.toDigits 10 n).head? = some '0') :
    Nat.toDigits 10 n = ['0'] := by
  induction n using Nat.strongRecOn with
  | _ n ih =>
    rcases Nat.lt_or_ge n 10 with hlt | hge
    · rw [Nat.toDigits_of_lt_base hlt] at h ⊢
      rw [Option.some.inj h]
    · rw [Nat.toDigits_of_base_le (by decide) hge,
        List.head?_append_of_ne_nil _ Nat.toDigits_ne_nil] at h
      have hvalue := congrArg (Nat.ofDigitChars 10 · 0) (ih (n / 10) (by omega) h)
      simp only [Nat.ofDigitChars_ten_toDigits] at hvalue
      have hzero : n / 10 = 0 := hvalue
      omega

theorem isBlank_of_isDigit (h : c.isDigit) : isBlank c = false := by
  rw [Bool.eq_false_iff]
  intro hc
  simp only [isBlank, Bool.or_eq_true, beq_iff_eq] at hc
  rcases hc with ((rfl | rfl) | rfl) | rfl <;> exact absurd h (by decide)

theorem scan_of_isDigit (h : c.isDigit) (cs : List Char) :
    Token.scan (c :: cs) =
      (Literal.scan (c :: cs)).map fun (l, rest) => (.number l.number, rest) := by
  unfold Token.scan
  split
  case h_11 => rfl
  -- No other token starts with a digit.
  all_goals
    rename_i heq
    cases heq
    exact absurd h (by decide)

theorem scan_toDigits (n : Nat) (hrest : Ends rest) :
    Literal.scan (Nat.toDigits 10 n ++ rest) =
      some ({ negative := false, whole := Nat.toDigits 10 n }, rest) := by
  have hsign : Literal.scanSign (Nat.toDigits 10 n ++ rest) =
      (false, Nat.toDigits 10 n ++ rest) := by
    unfold Literal.scanSign
    split
    · rename_i heq
      rcases List.append_eq_cons_iff.1 heq with ⟨hnil, -⟩ | ⟨ds, hds, -⟩
      · exact absurd hnil Nat.toDigits_ne_nil
      · exact absurd (Numeral.isDigit_of_mem_toDigits (hds ▸ List.mem_cons_self)) (by decide)
    · rfl
  have hwhole : Literal.scanWhole (Nat.toDigits 10 n ++ rest) =
      some (Nat.toDigits 10 n, rest) := by
    rw [Literal.scanWhole,
      digits?_append Nat.toDigits_ne_nil (fun _ => Numeral.isDigit_of_mem_toDigits) hrest]
    exact if_neg fun h => h.2 (toDigits_of_head?_eq_zero h.1)
  have hfraction : Literal.scanFraction rest = some ([], rest) := by
    unfold Literal.scanFraction
    split
    · exact absurd rfl (hrest '.' rfl).2.1
    · rfl
  have hexponent : Literal.scanExponent rest = some (none, rest) := by
    unfold Literal.scanExponent
    split
    · exact absurd rfl (hrest 'e' rfl).2.2.1
    · exact absurd rfl (hrest 'E' rfl).2.2.2
    · rfl
  simp only [Literal.scan, hsign, hwhole, hfraction, hexponent, Option.bind_eq_bind,
    Option.bind_some]

/-- Digits that denote a word are all read. -/
theorem takeFitting_of_le (h : Nat.ofDigitChars 10 cs n ≤ Word.max) :
    Literal.takeFitting n cs = (Nat.ofDigitChars 10 cs n, []) := by
  induction cs generalizing n with
  | nil => rfl
  | cons c cs ih =>
    have hstep : Nat.ofDigitChars 10 (c :: cs) n =
        Nat.ofDigitChars 10 cs (Nat.ofDigitChars 10 [c] n) := by
      rw [← Nat.ofDigitChars_append, List.singleton_append]
    rw [hstep] at h ⊢
    rw [Literal.takeFitting, if_pos (Nat.le_trans (Numeral.le_ofDigitChars cs _) h), ih h]

theorem number_toDigits (w : UInt64) :
    Literal.number { negative := false, whole := Nat.toDigits 10 w.toNat } = .word w := by
  have hvalue : Nat.ofDigitChars 10 (Nat.toDigits 10 w.toNat) 0 = w.toNat :=
    Nat.ofDigitChars_ten_toDigits
  have hfits := takeFitting_of_le (hvalue.symm ▸ Nat.le_of_lt_succ w.toNat_lt)
  simp only [Literal.number, hfits, hvalue]
  exact congrArg Number.word UInt64.ofNat_toNat

/-- A word in decimal is one token. -/
theorem tokens_word (w : UInt64) (hrest : Ends rest) :
    tokens ((toString w.toNat).toList ++ rest) = .number (.word w) :: tokens rest := by
  have hscan := scan_toDigits w.toNat hrest
  obtain ⟨d, ds, hds⟩ := List.exists_cons_of_ne_nil (Nat.toDigits_ne_nil (n := w.toNat) (b := 10))
  have hd : d.isDigit := Numeral.isDigit_of_mem_toDigits (hds ▸ List.mem_cons_self)
  rw [Nat.toString_eq_ofList_toDigits, String.toList_ofList]
  rw [hds, List.cons_append] at hscan ⊢
  refine tokens_of_scan (isBlank_of_isDigit hd) ?_ ?_
  · rw [scan_of_isDigit hd, hscan, Option.map_some]
    simp only [← hds, number_toDigits]
  · rw [List.length_append]
    omega

/-! ## Sequences -/

/-- Items with commas between them, each of which is read whatever ends it. -/
theorem tokens_intercalate {α : Type} {text : α → String} {item : α → List Token}
    (read : ∀ a rest, Ends rest → tokens ((text a).toList ++ rest) = item a ++ tokens rest) (a : α)
    (as : List α) (hrest : Ends rest) :
    tokens ((",".intercalate ((a :: as).map text)).toList ++ rest) =
      item a ++ (as.flatMap fun b => .comma :: item b) ++ tokens rest := by
  rw [String.toList_intercalate]
  induction as generalizing a with
  | nil =>
    simp only [List.map_cons, List.map_nil, List.intercalate_singleton, List.flatMap_nil,
      List.append_nil, read a rest hrest]
  | cons b as ih =>
    have hcomma : ∀ cs, tokens (",".toList ++ cs) = .comma :: tokens cs := fun _ =>
      tokens_of_scan rfl rfl (Nat.le_refl _)
    have hends : ∀ cs, Ends (",".toList ++ cs) := ends_cons (by decide)
    have hrec := ih b
    simp only [List.map_cons, List.intercalate_cons_cons, List.flatMap_cons,
      List.append_assoc] at hrec ⊢
    rw [read a _ (hends _), hcomma, hrec, List.cons_append]

end BoundedCache.Json
