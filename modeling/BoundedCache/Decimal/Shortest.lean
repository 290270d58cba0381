/-! # The shortest decimal that reads back as a binary number

A binary number stands for all the reals that round to it. Of the decimals among these the one on
the coarsest grid of powers of ten is chosen, and of two on one grid the nearer.
-/
namespace BoundedCache

/-- A positive number `mantissa * 2 ^ exponent`. The gap below it may be half of that above. -/
structure Binary where
  mantissa : Nat
  exponent : Int
  narrowBelow : Bool

/-- A number `digits * 10 ^ exponent`. -/
structure Decimal where
  digits : Nat
  exponent : Int
deriving DecidableEq

namespace Binary

/-- The magnitude of a finite number. -/
def ofFloat (x : Float) : Binary :=
  let bits : Nat := x.toBits.toNat
  let biased : Nat := (bits >>> 52) % 2048
  let low := bits % (1 <<< 52)
  if biased = 0 then ⟨low, -1074, false⟩
  else ⟨(1 <<< 52) + low, biased - 1075, low == 0 && 1 < biased⟩

/-- A power of ten; one if the exponent is negative. -/
def tenTo (e : Int) : Nat := Nat.pow 10 e.toNat

/-- How a decimal compares with `n * 2 ^ e`. -/
def compareWith (d : Decimal) (n : Nat) (e : Int) : Ordering :=
  compare ((d.digits * tenTo d.exponent) <<< (-e).toNat) ((n * tenTo (-d.exponent)) <<< e.toNat)

/-- Whether a decimal lies among the reals that round to the number, ties to even. -/
def readsBack (x : Binary) (d : Decimal) : Bool :=
  let even := x.mantissa % 2 == 0
  let below := compareWith d (4 * x.mantissa - if x.narrowBelow then 1 else 2) (x.exponent - 2)
  let above := compareWith d (4 * x.mantissa + 2) (x.exponent - 2)
  (below == .gt || even && below == .eq) && (above == .lt || even && above == .eq)

/-- The number cut off to a multiple of a power of ten. -/
def floor (x : Binary) (e : Int) : Nat :=
  ((x.mantissa * tenTo (-e)) <<< x.exponent.toNat) / (tenTo e <<< (-x.exponent).toNat)

/-- A multiple of a power of ten that reads back: the nearer of the two neighbours, or the even one
if they are equally near. -/
def onGrid? (x : Binary) (e : Int) : Option Decimal :=
  let low : Decimal := ⟨x.floor e, e⟩
  let high : Decimal := ⟨x.floor e + 1, e⟩
  match x.readsBack low, x.readsBack high with
  | false, false => none
  | true, false => some low
  | false, true => some high
  | true, true =>
    match compareWith ⟨low.digits + high.digits, e⟩ (2 * x.mantissa) x.exponent with
    | .gt => some low
    | .lt => some high
    | .eq => some (if low.digits % 2 = 0 then low else high)

/-- All digits of the number. -/
def exact (x : Binary) : Decimal :=
  if 0 ≤ x.exponent then ⟨x.mantissa <<< x.exponent.toNat, 0⟩
  else ⟨x.mantissa * Nat.pow 5 (-x.exponent).toNat, x.exponent⟩

/-- The first decimal that reads back on so many grids, from a power of ten downwards. -/
def search (x : Binary) : Nat → Int → Decimal
  | 0, _ => x.exact
  | grids + 1, e =>
    match x.onGrid? e with
    | some d => d
    | none => x.search grids (e - 1)

/-- The search starts above the number, and seventeen digits always read back. -/
def shortest (x : Binary) : Decimal :=
  x.search 24 ((x.mantissa.log2 + 1 + x.exponent) * 30103 / 100000 + 1)

end Binary

namespace Decimal

/-- Which numbers are written out in full: those whose first digit has an exponent in a range. Of
the others the exponent is written, with its sign. -/
structure Layout where
  least : Int
  greatest : Int

def zeros (n : Nat) : List Char := List.replicate n '0'

def Layout.write (layout : Layout) (d : Decimal) : List Char :=
  let digits := Nat.toDigits 10 d.digits
  let point := d.exponent + digits.length
  let exponent := point - 1
  if layout.least ≤ exponent ∧ exponent ≤ layout.greatest then
    if point ≤ 0 then '0' :: '.' :: zeros (-point).toNat ++ digits
    else if 0 ≤ d.exponent then digits ++ zeros d.exponent.toNat ++ ['.', '0']
    else digits.take point.toNat ++ '.' :: digits.drop point.toNat
  else
    digits.take 1 ++ (if digits.length = 1 then [] else '.' :: digits.drop 1) ++
      'e' :: (if exponent < 0 then '-' else '+') :: Nat.toDigits 10 exponent.natAbs

/-- A finite number with the fewest digits that read back, and at least one after the point. -/
def Layout.writeFloat (layout : Layout) (x : Float) : String :=
  let sign := if x.toBits >>> 63 = 0 then [] else ['-']
  let magnitude := Binary.ofFloat x
  String.ofList (sign ++
    if magnitude.mantissa = 0 then ['0', '.', '0'] else layout.write magnitude.shortest)

end Decimal
end BoundedCache
