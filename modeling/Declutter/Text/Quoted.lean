import Declutter.Text.Printable

/-!
# Quoted text

A text as it is shown in a message: between quotes, on one line, with every character that cannot
be shown written as its code.

## Main definitions

* `Text.quoteMark` — the quotes to put around a text.
* `Text.escape` — a character between quotes.
* `Text.quoted` — a text between quotes.
-/

namespace Declutter.Text

/-- A hexadecimal digit, in small letters. -/
def hexDigit (n : Nat) : Char := Char.ofNat (if n < 10 then 48 + n else 87 + n)

/-- A number as `width` hexadecimal digits. -/
def hexDigits (width n : Nat) : List Char :=
  (List.range width).reverse.map fun i => hexDigit (n / Nat.pow 16 i % 16)

/-- The code of a character, with as many digits as it needs out of two, four and eight. -/
def codeEscape (c : Char) : List Char :=
  let n := c.toNat
  if n < 0x100 then '\\' :: 'x' :: hexDigits 2 n
  else if n < 0x10000 then '\\' :: 'u' :: hexDigits 4 n
  else '\\' :: 'U' :: hexDigits 8 n

/-- The quotes around a text: single ones, unless the text has those and no double ones. -/
def quoteMark (s : String) : Char :=
  if s.toList.contains '\'' && !s.toList.contains '\x22' then '\x22' else '\''

/-- A character between the quotes `mark`. -/
def escape (mark c : Char) : List Char :=
  if c == mark || c == '\\' then ['\\', c]
  else if c == '\t' then ['\\', 't']
  else if c == '\n' then ['\\', 'n']
  else if c == '\r' then ['\\', 'r']
  else if isPrintable c then [c]
  else codeEscape c

/-- A text between quotes. -/
def quoted (s : String) : String :=
  let mark := quoteMark s
  String.ofList (mark :: s.toList.flatMap (escape mark) ++ [mark])

end Declutter.Text
