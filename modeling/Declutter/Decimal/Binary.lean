/-!
# Binary fractions

The positive numbers of the usual floating-point format: a mantissa of at most 53 bits times a
power of two.  They are kept as two integers, so that rounding to them and reading them off are
exact computations.

## Main definitions

* `twoPow`, `tenPow` — the powers of two and of ten.
* `Binary` — a positive number of the format.
* `Binary.nearest` — the number nearest to a quotient.
-/

namespace Declutter

/-- A power of two. -/
def twoPow (n : Nat) : Nat := Nat.pow 2 n

/-- A power of ten. -/
def tenPow (n : Nat) : Nat := Nat.pow 10 n

/-- The number `mantissa * 2 ^ exponent`. -/
structure Binary where
  mantissa : Nat
  exponent : Int
  deriving DecidableEq, Repr, Inhabited

namespace Binary

/-- The least exponent of the format. -/
def minExponent : Int := -1074

/-- The greatest exponent of the format. -/
def maxExponent : Int := 971

/-- The numerator and denominator of `n / d` divided by a power of two. -/
def scale (n d : Nat) (exponent : Int) : Nat × Nat :=
  if 0 ≤ exponent then (n, d * twoPow exponent.toNat) else (n * twoPow (-exponent).toNat, d)

/-- The integer nearest to `n / d`, the even one of two. -/
def roundQuotient (n d : Nat) : Nat :=
  let floor := n / d
  let rest := 2 * (n % d)
  if rest < d || (rest == d && floor % 2 == 0) then floor else floor + 1

/-- The greatest `k` with `2 ^ k ≤ n / d`. -/
def logQuotient (n d : Nat) : Int :=
  let guess : Int := n.log2 - d.log2
  let (a, b) := scale n d guess
  if b ≤ a then guess else guess - 1

/-- The number as an integer, if it is one. -/
def toNat? (b : Binary) : Option Nat :=
  if 0 ≤ b.exponent then some (b.mantissa * twoPow b.exponent.toNat)
  else
    let unit := twoPow (-b.exponent).toNat
    if b.mantissa % unit == 0 then some (b.mantissa / unit) else none

/-- What a quotient is nearest to. -/
inductive Rounded where
  | zero
  | finite (value : Binary)
  | infinite
  deriving DecidableEq, Repr, Inhabited

/-- The number of the format nearest to `n / d`, ties going to the even mantissa. -/
def nearest (n d : Nat) : Rounded :=
  if n == 0 then .zero
  else
    let exponent := max minExponent (logQuotient n d - 52)
    let (a, b) := scale n d exponent
    let mantissa := roundQuotient a b
    let value : Binary :=
      if mantissa == twoPow 53 then ⟨twoPow 52, exponent + 1⟩ else ⟨mantissa, exponent⟩
    if value.mantissa == 0 then .zero
    else if maxExponent < value.exponent then .infinite
    else .finite value

end Binary

end Declutter
