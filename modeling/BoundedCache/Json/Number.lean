import BoundedCache.Decimal.Shortest
import BoundedCache.Text.Numeral

/-! # Numbers in a document -/
namespace BoundedCache.Json

/-- A number is a word, the negative of a positive integer, or a float; or it is too large. -/
inductive Number
  | word (n : UInt64)
  | negative (n : Nat)
  | float (x : Float)
  | outOfRange

/-- The parts of a written number. -/
structure Literal where
  negative : Bool
  whole : List Char
  fraction : List Char := []
  /-- Whether the exponent is positive, and its digits. -/
  exponent? : Option (Bool × List Char) := none

/-- Floats keep the fewest digits that read back. -/
def floatLayout : Decimal.Layout := { least := -5, greatest := 15 }

namespace Literal

/-- The digits at the start, if there are any, and what follows them. -/
def digits? (cs : List Char) : Option (List Char × List Char) :=
  let digits := cs.takeWhile Char.isDigit
  if digits = [] then none else some (digits, cs.dropWhile Char.isDigit)

def scanSign : List Char → Bool × List Char
  | '-' :: rest => (true, rest)
  | cs => (false, cs)

/-- The digits before the point; zero stands alone. -/
def scanWhole (cs : List Char) : Option (List Char × List Char) := do
  let (digits, rest) ← digits? cs
  if digits.head? = some '0' ∧ digits ≠ ['0'] then none else some (digits, rest)

def scanFraction : List Char → Option (List Char × List Char)
  | '.' :: rest => digits? rest
  | cs => some ([], cs)

/-- The digits of an exponent after its sign. -/
def scanExponentDigits : List Char → Option ((Bool × List Char) × List Char)
  | '+' :: rest => (digits? rest).map fun (digits, rest) => ((true, digits), rest)
  | '-' :: rest => (digits? rest).map fun (digits, rest) => ((false, digits), rest)
  | cs => (digits? cs).map fun (digits, rest) => ((true, digits), rest)

def scanExponent : List Char → Option (Option (Bool × List Char) × List Char)
  | 'e' :: rest => (scanExponentDigits rest).map fun (e, rest) => (some e, rest)
  | 'E' :: rest => (scanExponentDigits rest).map fun (e, rest) => (some e, rest)
  | cs => some (none, cs)

/-- The number at the start of a text, and what follows it. -/
def scan (cs : List Char) : Option (Literal × List Char) := do
  let (negative, cs) := scanSign cs
  let (whole, cs) ← scanWhole cs
  let (fraction, cs) ← scanFraction cs
  let (exponent?, cs) ← scanExponent cs
  some ({ negative, whole, fraction, exponent? }, cs)

/-- Reads on while the number fits in a word; the digits from the first that does not are left. -/
def takeFitting (n : Nat) : List Char → Nat × List Char
  | [] => (n, [])
  | c :: rest =>
    let m := Nat.ofDigitChars 10 [c] n
    if m ≤ Word.max then takeFitting m rest else (n, c :: rest)

/-- The largest exponent that can be written out. -/
def exponentLimit : Nat := 2147483647

/-- The largest number whose negative is kept as an integer. -/
def negativeLimit : Nat := 9223372036854775808

/-- A float times a power of ten, in steps of at most 308; none if it gets too large. -/
def scale (x : Float) (e : Int) : Option Float :=
  if -308 ≤ e ∧ e ≤ 308 then
    let power := Float.ofScientific 1 false e.natAbs
    if e < 0 then some (x / power)
    else if (x * power).isInf then none
    else some (x * power)
  else if x == 0 then some x
  else if 0 < e then none
  else scale (x / 1e308) (e + 308)
termination_by e.natAbs

/-- The float with a sign, or a number out of range. -/
def signed (negative : Bool) : Option Float → Number
  | some x => .float (if negative then -x else x)
  | none => .outOfRange

/-- What a written number denotes. An integer in the range of words and their negatives stays one;
zero has no negative. All else is a float made from the digits that fit in a word. -/
def number (l : Literal) : Number :=
  let (n, dropped) := takeFitting 0 l.whole
  let (m, ignored) := takeFitting n l.fraction
  let x := m.toUInt64.toFloat
  let e : Int := dropped.length - (l.fraction.length - ignored.length : Nat)
  match l.exponent? with
  | none =>
    if dropped ≠ [] ∨ l.fraction ≠ [] then signed l.negative (scale x e)
    else if !l.negative then .word n.toUInt64
    else if n = 0 ∨ negativeLimit < n then signed true (some x)
    else .negative n
  | some (positive, digits) =>
    let power := Numeral.value digits
    if exponentLimit < power then
      signed l.negative (if positive ∧ m ≠ 0 then none else some 0)
    else signed l.negative (scale x (if positive then e + power else e - power))

end Literal
end BoundedCache.Json
