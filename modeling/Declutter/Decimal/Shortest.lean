import Declutter.Decimal.Binary

/-!
# Shortest decimals

The decimal with the fewest digits that still reads back as a given binary fraction.  A decimal
reads back as the fraction when it lies between the midpoints to the fraction's neighbours; on the
grid of decimals with a certain number of digits only the two points next to the fraction need be
tried, since of the points in an interval around it these are the nearest.

## Main definitions

* `Shortest.digits` — the digits and the place of the decimal point.
* `Shortest.render` — the decimal as text.
-/

namespace Declutter.Shortest

/-- A decimal: `0.d₁d₂… * 10 ^ point`, where `digits` is the number written `d₁d₂…`. -/
structure Digits where
  digits : Nat
  point : Int
  deriving DecidableEq, Repr, Inhabited

/-- A fraction in quarters of its last place, with the midpoints to its neighbours: the numbers
`low`, `value` and `high`, all over `den`.  Below a power of two the neighbour is half as far. -/
structure Interval where
  low : Nat
  value : Nat
  high : Nat
  den : Nat
  /-- Whether the midpoints themselves read back as the fraction. -/
  closed : Bool
  deriving Repr

/-- The interval of the numbers that read back as a fraction. -/
def Interval.of (b : Binary) : Interval :=
  let exponent := b.exponent - 2
  let num := twoPow exponent.toNat
  let below := if b.mantissa == twoPow 52 && Binary.minExponent < b.exponent then 1 else 2
  { low := (4 * b.mantissa - below) * num
    value := 4 * b.mantissa * num
    high := (4 * b.mantissa + 2) * num
    den := twoPow (-exponent).toNat
    closed := b.mantissa % 2 == 0 }

/-- Whether `c * a / d` lies in the interval. -/
def Interval.contains (i : Interval) (c a d : Nat) : Bool :=
  let x := c * a * i.den
  if i.closed then i.low * d ≤ x && x ≤ i.high * d else i.low * d < x && x < i.high * d

/-- The point of the grid of multiples of `10 ^ place` that lies in the interval and is nearest to
its fraction, the even one of two, as a multiple of the grid's step. -/
def gridPoint? (i : Interval) (place : Int) : Option Nat :=
  let a := tenPow place.toNat
  let d := tenPow (-place).toNat
  let below := i.value * d / (i.den * a)
  let lowIn := i.contains below a d
  let highIn := i.contains (below + 1) a d
  let down := i.value * d - below * a * i.den
  let up := (below + 1) * a * i.den - i.value * d
  if lowIn && highIn then
    if down < up || (down == up && below % 2 == 0) then some below else some (below + 1)
  else if lowIn then some below
  else if highIn then some (below + 1)
  else none

/-- The least `k ≥ start` with `value < 10 ^ k * den`, looking at no more than `tries` numbers. -/
def pointFrom (value den : Nat) : (tries : Nat) → (start : Int) → Int
  | 0, k => k
  | tries + 1, k =>
    if value * tenPow (-k).toNat < tenPow k.toNat * den then k
    else pointFrom value den tries (k + 1)

/-- The first grid point found with `count`, `count + 1`, … digits. -/
def digitsFrom (i : Interval) (point : Int) : (tries count : Nat) → Digits
  | 0, count => ⟨i.value / i.den, count⟩
  | tries + 1, count =>
    match gridPoint? i (point - count) with
    | some c => if c == tenPow count then ⟨1, point + 1⟩ else ⟨c, point⟩
    | none => digitsFrom i point tries (count + 1)

/-- The fewest digits that read back as a fraction.  Seventeen are always enough. -/
def digits (b : Binary) : Digits :=
  let i := Interval.of b
  digitsFrom i (pointFrom i.value i.den 700 (-330)) 17 1

/-- An exponent, with its sign and at least two digits. -/
def renderExponent (e : Int) : String :=
  let size := toString e.natAbs
  (if e < 0 then "e-" else "e+") ++ (if size.length < 2 then "0" ++ size else size)

/-- The digits of a number without the zeros at its end. -/
def trimZeros (n : Nat) : List Char := ((toString n).toList.reverse.dropWhile (· == '0')).reverse

/-- The decimal as text.  It is written without an exponent from 0.0001 on up to sixteen digits
before the point, and then has at least one digit on either side of the point. -/
def render (d : Digits) : String :=
  let ds := trimZeros d.digits
  let n : Int := ds.length
  let text :=
    if d.point ≤ -4 || 16 < d.point then
      match ds with
      | [] => []
      | [c] => c :: (renderExponent (d.point - 1)).toList
      | c :: rest => c :: '.' :: rest ++ (renderExponent (d.point - 1)).toList
    else if d.point ≤ 0 then
      '0' :: '.' :: List.replicate (-d.point).toNat '0' ++ ds
    else if n ≤ d.point then ds ++ List.replicate (d.point - n).toNat '0' ++ ['.', '0']
    else ds.take d.point.toNat ++ '.' :: ds.drop d.point.toNat
  String.ofList text

end Declutter.Shortest
