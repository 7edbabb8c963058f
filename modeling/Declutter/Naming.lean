/-!
# Names for merged collections

When collections are merged into one collection of records, the record's fields and the new
collection need names.  They are made from the names of the old collections: the singular of a
name, reduced to the characters of an identifier, and numbered when it is taken.

## Main definitions

* `singularize` — the singular of a plural.
* `toIdentifier` — a name reduced to an identifier.
* `fresh` — a name that is not taken.
* `fieldName`, `groupName` — the two sorts of names.
-/

namespace Declutter

/-- The singular of a plural, by the common endings of English.  Lowering ASCII capitals is
enough: no other character has a letter of these endings as its whole small form. -/
def singularize (name : String) : String :=
  let chars := name.toList
  let lower := chars.map Char.toLower
  let ends (tail : String) : Bool := tail.toList.isSuffixOf lower
  let without (n : Nat) : List Char := chars.take (chars.length - n)
  if ends "ies" && 3 < chars.length then String.ofList (without 3 ++ ['y'])
  else if ends "sses" || ends "xes" || ends "ches" || ends "shes" then String.ofList (without 2)
  else if ends "s" && !ends "ss" && 1 < chars.length then String.ofList (without 1)
  else name

/-- The characters of an identifier. -/
def isIdentifierChar (c : Char) : Bool := c.isAlphanum || c == '_' || c == '$'

/-- A name reduced to the characters of an identifier.  Nothing left gives `fallback`, and a digit
in front is put behind `fallback`. -/
def toIdentifier (name fallback : String) : String :=
  match name.toList.filter isIdentifierChar with
  | [] => fallback
  | c :: rest =>
    if c.isDigit then fallback ++ String.ofList (c :: rest) else String.ofList (c :: rest)

/-- The name with a number behind it. -/
def numbered (base : String) (n : Nat) : String := base ++ toString n

/-- The first of `base` numbered `n`, `n + 1`, … that is not taken, looking at no more than `tries`
of them before the last. -/
def freshFrom (base : String) (taken : List String) : (tries n : Nat) → String
  | 0, n => numbered base n
  | tries + 1, n =>
    if taken.contains (numbered base n) then freshFrom base taken tries (n + 1)
    else numbered base n

/-- The name itself if it is not taken, and else the name with the least number from 2 on that
makes it fresh.  No more numbers have to be tried than names are taken. -/
def fresh (base : String) (taken : List String) : String :=
  if taken.contains base then freshFrom base taken taken.length 2 else base

/-- The field of a record for an element of a collection: the singular of the collection's name,
or that name with `Item` behind it when it is its own singular. -/
def fieldName (collection : String) (taken : List String) : String :=
  let base := toIdentifier (singularize collection) "value"
  fresh (if base == collection then base ++ "Item" else base) taken

/-- The name of a collection of records, from the name of the collection that leads the group. -/
def groupName (anchor : String) (taken : List String) : String :=
  fresh (toIdentifier (singularize anchor ++ "Records") "merged") taken

end Declutter
