/-!
# Blanks, words and lines

White space and line breaks as Unicode has them, and the operations on text that rest on them.

## Main definitions

* `Text.isBlank`, `Text.isLineBreak` — the two classes.
* `Text.stripStart`, `Text.stripEnd`, `Text.strip` — text without blanks at its ends.
* `Text.isSpace`, `Text.trim` — the narrower class of white space, and text without it at its ends.
* `Text.withoutBlanks` — text without any blanks.
* `Text.firstLine` — the text before the first line break.
* `Text.contains` — whether a text occurs in another.
-/

namespace Declutter.Text

/-- The characters that separate words: the ASCII blanks, the information separators, and the
space, line and paragraph separators of Unicode. -/
def isBlank (c : Char) : Bool :=
  let n := c.toNat
  (9 ≤ n && n ≤ 13) || (28 ≤ n && n ≤ 32) || n == 0x85 || n == 0xA0 || n == 0x1680 ||
    (0x2000 ≤ n && n ≤ 0x200A) || n == 0x2028 || n == 0x2029 || n == 0x202F || n == 0x205F ||
    n == 0x3000

/-- The characters that end a line. -/
def isLineBreak (c : Char) : Bool :=
  let n := c.toNat
  (10 ≤ n && n ≤ 13) || (28 ≤ n && n ≤ 30) || n == 0x85 || n == 0x2028 || n == 0x2029

/-- A line break separates words too. -/
theorem isBlank_of_isLineBreak {c : Char} (h : isLineBreak c = true) : isBlank c = true := by
  simp only [isLineBreak, isBlank, Bool.or_eq_true, Bool.and_eq_true, decide_eq_true_eq,
    beq_iff_eq] at h ⊢
  omega

/-- The text without the blanks at its start. -/
def stripStart (s : String) : String := String.ofList (s.toList.dropWhile isBlank)

/-- The text without the blanks at its end. -/
def stripEnd (s : String) : String :=
  String.ofList ((s.toList.reverse.dropWhile isBlank).reverse)

/-- The text without the blanks at either end. -/
def strip (s : String) : String := stripEnd (stripStart s)

/-- Whether a character is white space: a blank other than the four information separators. -/
def isSpace (c : Char) : Bool := isBlank c && !(28 ≤ c.toNat && c.toNat ≤ 31)

/-- The text without the white space at either end. -/
def trim (s : String) : String :=
  String.ofList (((s.toList.dropWhile isSpace).reverse.dropWhile isSpace).reverse)

/-- The text without any blanks. -/
def withoutBlanks (s : String) : String := String.ofList (s.toList.filter (!isBlank ·))

/-- The text before the first line break. -/
def firstLine (s : String) : String := String.ofList (s.toList.takeWhile (!isLineBreak ·))

/-- The first `n` characters. -/
def clip (n : Nat) (s : String) : String := String.ofList (s.toList.take n)

/-- Whether the text begins with `start`. -/
def beginsWith (s start : String) : Bool := start.toList.isPrefixOf s.toList

/-- Whether the text ends with `tail`. -/
def endsWith (s tail : String) : Bool := tail.toList.isSuffixOf s.toList

/-- Whether `part` occurs in a list. -/
def occursInList (part : List Char) : List Char → Bool
  | [] => part.isEmpty
  | c :: rest => part.isPrefixOf (c :: rest) || occursInList part rest

/-- Whether `part` occurs in the text. -/
def contains (s part : String) : Bool := occursInList part.toList s.toList

/-- The text after the last occurrence of `c`, or all of it if there is none. -/
def afterLast (c : Char) (s : String) : String :=
  String.ofList ((s.toList.reverse.takeWhile (· != c)).reverse)

end Declutter.Text
