import Declutter.Decimal.Binary
import Declutter.Text.Blank

/-!
# Numbers in text

Numbers as people write them.  A decimal may have a sign, a point and an exponent, or be one of the
words for infinity and for no number at all.  An integer may have zeros in front and after a point.
Either may have underscores between its characters.

## Main definitions

* `Numeral`, `Numeral.ofText?` — a decimal, and the one that a text denotes.
* `Numeral.magnitude` — the number of the floating-point format nearest to a decimal.
* `IntegerText.read` — the integer that a text denotes, or why there is none.
-/

namespace Declutter

/-- A decimal: the number `mantissa * 10 ^ exponent`, or one of the special values. -/
inductive Numeral where
  | finite (negative : Bool) (mantissa : Nat) (exponent : Int)
  | infinite (negative : Bool)
  | undefined
  deriving DecidableEq, Repr, Inhabited

namespace Numeral

/-! ### Parts of numbers -/

/-- The number that a list of digits denotes. -/
def ofDigits (cs : List Char) : Nat := cs.foldl (fun n c => 10 * n + (c.toNat - '0'.toNat)) 0

/-- A number with a sign. -/
def signed (negative : Bool) (n : Nat) : Int := if negative then -(n : Int) else n

/-- Whether underscores stand only between other characters, and never two together. -/
def underscoresInside : List Char → Bool
  | '_' :: _ => false
  | [_, '_'] => false
  | _ :: '_' :: '_' :: _ => false
  | _ :: '_' :: rest => underscoresInside rest
  | _ :: rest => underscoresInside rest
  | [] => true

/-- A list of characters without the underscores inside it. -/
def withoutUnderscores? (cs : List Char) : Option (List Char) :=
  if underscoresInside cs then some (cs.filter (· != '_')) else none

/-- The sign in front of a number, and what follows it. -/
def splitSign : List Char → Bool × List Char
  | '-' :: rest => (true, rest)
  | '+' :: rest => (false, rest)
  | cs => (false, cs)

/-! ### Decimals -/

/-- The exponent after a mantissa; nothing stands for zero. -/
def exponent? : List Char → Option Int
  | [] => some 0
  | e :: rest =>
    if e == 'e' || e == 'E' then
      let (negative, ds) := splitSign rest
      if !ds.isEmpty && ds.all Char.isDigit then some (signed negative (ofDigits ds)) else none
    else none

/-- A decimal without underscores. -/
def ofPlain? (cs : List Char) : Option Numeral :=
  let (negative, cs) := splitSign cs
  let word := String.ofList (cs.map Char.toLower)
  if word == "inf" || word == "infinity" then some (.infinite negative)
  else if word == "nan" then some .undefined
  else
    let whole := cs.takeWhile Char.isDigit
    let rest := cs.dropWhile Char.isDigit
    let (places, rest) := match rest with
      | '.' :: rest => (rest.takeWhile Char.isDigit, rest.dropWhile Char.isDigit)
      | _ => ([], rest)
    if whole.isEmpty && places.isEmpty then none
    else (exponent? rest).map fun e => .finite negative (ofDigits (whole ++ places)) (e - places.length)

/-- The decimal that a text denotes.  There may be white space around it; where there is, an
underscore may stand at its very beginning or end too. -/
def ofText? (s : String) : Option Numeral :=
  (ofPlain? (Text.trim s).toList).or
    ((withoutUnderscores? s.toList).bind fun cs => ofPlain? (Text.trim (String.ofList cs)).toList)

/-- The decimal of an integer. -/
def ofInt (n : Int) : Numeral := .finite (n < 0) n.natAbs 0

/-- An exponent of ten beyond those of all numbers of the floating-point format. -/
def maxTenExponent : Int := 400

/-- The number of the floating-point format nearest to `mantissa * 10 ^ exponent`. -/
def magnitude (mantissa : Nat) (exponent : Int) : Binary.Rounded :=
  if mantissa == 0 || exponent + mantissa.log2 < -maxTenExponent then .zero
  else if maxTenExponent < exponent then .infinite
  else Binary.nearest (mantissa * tenPow exponent.toNat) (tenPow (-exponent).toNat)

end Numeral

/-! ### Integers -/

namespace IntegerText

/-- Why a text is refused as an integer. -/
inductive Fault where
  | malformed
  | tooLong
  deriving DecidableEq, Repr, Inhabited

/-- The greatest length of an integer, with its sign. -/
def maxLength : Nat := 4300

/-- The integer that digits denote, with a minus in front or none.  Only zero itself begins with a
zero.  Digits beyond the greatest length are refused whatever comes after them. -/
def plain (cs : List Char) : Except Fault Int :=
  let negative := cs.head? == some '-'
  let ds := if negative then cs.tail else cs
  if ds == ['0'] then .ok 0
  else if ds.head? == some '0' then .error .malformed
  else
    let digits := ds.takeWhile Char.isDigit
    if maxLength < digits.length + (if negative then 1 else 0) then .error .tooLong
    else if digits.isEmpty || digits.length != ds.length then .error .malformed
    else .ok (Numeral.signed negative (Numeral.ofDigits ds))

/-- The characters without a plus in front; no minus may follow it. -/
def withoutPlus? : List Char → Option (List Char)
  | '+' :: '-' :: _ => none
  | '+' :: rest => some rest
  | cs => some cs

/-- The characters without zeros in front, which may be mixed with underscores.  A zero that ends
the whole part stays, and so does a minus after the zeros. -/
def withoutZeros? : List Char → Option (List Char)
  | [] => none
  | c :: rest =>
    if c == '0' then
      let zeros := rest.takeWhile fun c => c == '0' || c == '_'
      match rest.dropWhile fun c => c == '0' || c == '_' with
      | [] => some [(c :: zeros).getLast (by simp)]
      | d :: more =>
        if d == '.' then some ((c :: zeros).getLast (by simp) :: d :: more)
        else if d == '-' || d.isDigit then some (d :: more)
        else none
    else if c == '-' || c.isDigit then some (c :: rest)
    else none

/-- The characters before a point that only zeros follow. -/
def withoutPlaces (cs : List Char) : List Char :=
  match cs.dropWhile (· != '.') with
  | _ :: place :: places =>
    if (place :: places).all (· == '0') then cs.takeWhile (· != '.') else cs
  | _ => cs

/-- The characters of an integer without all that may be left out of it. -/
def bare? (cs : List Char) : Option (List Char) := do
  let cs ← withoutPlus? cs
  let cs := withoutPlaces (← withoutZeros? cs)
  return (Numeral.withoutUnderscores? cs).getD cs

/-- The integer that a text denotes, or why there is none. -/
def read (s : String) : Except Fault Int :=
  match plain s.toList with
  | .error .malformed =>
    match bare? (Text.trim s).toList with
    | some cs => plain cs
    | none => .error .malformed
  | result => result

end IntegerText

end Declutter
