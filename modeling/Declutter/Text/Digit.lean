/-!
# Decimal digits

The decimal digits of all scripts.  Each script has its ten digits in a row, so the digits are
known by their zeros.

## Main definitions

* `Text.digitZeros` — the zeros.
* `Text.digitValue?` — the value of a digit.
* `Text.withPlainDigits` — a text with the digits of all scripts replaced by the usual ones.
-/

namespace Declutter.Text

/-- The code points of the digits zero, ascending. -/
def digitZeros : List Nat := [
    48, 1632, 1776, 1984, 2406, 2534, 2662, 2790, 2918, 3046, 3174, 3302, 3430, 3558, 3664,
    3792, 3872, 4160, 4240, 6112, 6160, 6470, 6608, 6784, 6800, 6992, 7088, 7232, 7248,
    42528, 43216, 43264, 43472, 43504, 43600, 44016, 65296, 66720, 68912, 69734, 69872,
    69942, 70096, 70384, 70736, 70864, 71248, 71360, 71472, 71904, 72016, 72784, 73040,
    73120, 92768, 92864, 93008, 120782, 120792, 120802, 120812, 120822, 123200, 123632,
    125264, 130032]

/-- The value of a digit. -/
def digitValue? (c : Char) : Option Nat :=
  (digitZeros.find? fun first => first ≤ c.toNat && c.toNat < first + 10).map (c.toNat - ·)

/-- Whether a character is a digit. -/
def isDigit (c : Char) : Bool := (digitValue? c).isSome

/-- A text with the digits of all scripts replaced by the usual ones. -/
def withPlainDigits (s : String) : String :=
  String.ofList (s.toList.map fun c =>
    match digitValue? c with
    | some n => Char.ofNat ('0'.toNat + n)
    | none => c)

end Declutter.Text
