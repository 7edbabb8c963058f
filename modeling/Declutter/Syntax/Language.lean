import Declutter.Text.Blank

/-!
# Languages and file names

The three languages, and how the name of a file tells its language.

## Main definitions

* `Language` — JavaScript, TypeScript, and TypeScript with embedded markup.
* `Language.extension` — the extension of a path.
* `Language.ofPath` — the language of a file.
-/

namespace Declutter

/-- A language that can be analysed. -/
inductive Language where
  | javascript
  | typescript
  | tsx
  deriving DecidableEq, Repr, Inhabited

namespace Language

/-- The name of a language. -/
def name : Language → String
  | .javascript => "javascript"
  | .typescript => "typescript"
  | .tsx => "tsx"

/-- The language of a name. -/
def ofName? (s : String) : Option Language :=
  [javascript, typescript, tsx].find? (·.name == s)

@[simp] theorem ofName?_name (l : Language) : ofName? l.name = some l := by
  cases l <;> decide

/-- The extensions of source files. -/
def ofExtensionTable : List (String × Language) := [
    (".js", .javascript),
    (".jsx", .javascript),
    (".mjs", .javascript),
    (".cjs", .javascript),
    (".ts", .typescript),
    (".mts", .typescript),
    (".cts", .typescript),
    (".tsx", .tsx)]

/-- The extension of a path: its last component from the last dot on, and nothing when only dots
precede that dot. -/
def extension (path : String) : String :=
  let base := (path.toList.reverse.takeWhile (· != '/')).reverse
  let stem := base.dropWhile (· == '.')
  if stem.contains '.' then
    String.ofList ('.' :: (stem.reverse.takeWhile (· != '.')).reverse)
  else ""

/-- The language of an extension, in either case of its letters.  Lowering ASCII capitals is
enough: no other character has one of the letters of an extension as its small form. -/
def ofExtension? (ext : String) : Option Language :=
  ofExtensionTable.lookup (String.ofList (ext.toList.map Char.toLower))

/-- The language of a file; one without a known extension is taken for JavaScript. -/
def ofPath (path : String) : Language := (ofExtension? (extension path)).getD .javascript

end Language

end Declutter
