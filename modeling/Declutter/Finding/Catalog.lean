import Declutter.Finding.Rule
import Declutter.Text.Blank
import Declutter.Text.Capital

/-!
# The catalog of rules

Every rule has an entry that explains it to the reader of a report: why the rule is there, an
example before and after the rewrite, when the rewrite is withheld, and the settings that bear on
it.

## Main definitions

* `CatalogEntry`, `Rule.entry` — the entry of a rule.
* `Rule.ofName?` — the rule of a name that is written freely.
* `CatalogEntry.render`, `explain` — an entry as text.
* `ruleTable` — the list of the rules.
-/

namespace Declutter

/-- What the catalog says of a rule. -/
structure CatalogEntry where
  rule : Rule
  title : String
  rationale : String
  /-- An example. -/
  before : String
  /-- The example after the rewrite. -/
  after : String
  /-- The cases in which there is no rewrite. -/
  withheldWhen : List String
  /-- The settings that bear on the rule. -/
  options : List String := []
  deriving DecidableEq, Repr, Inhabited

/-- What the catalog says of a rule. -/
def Rule.entry : Rule → CatalogEntry
  | .singleUse =>
    { rule := .singleUse
      title := "Single-use local binding"
      rationale := "A local that is written once and read once, immediately after its " ++
        "declaration, adds a name without adding meaning.  Substituting the initializer at the " ++
        "usage site shortens the code and removes a place where the value could later be " ++
        "modified by accident."
      before := "function total(order) \x7b\n" ++
        "  const subtotal = order.items.reduce(sum, 0);\n" ++
        "  return subtotal + order.shipping;\n\x7d"
      after := "function total(order) \x7b\n" ++
        "  return order.items.reduce(sum, 0) + order.shipping;\n\x7d"
      withheldWhen := [
        "the binding is exported, has a type annotation, or uses a destructuring pattern",
        "the single read is not in the statement directly after the declaration",
        "the read sits in a loop body, callback, or conditionally evaluated branch",
        "code evaluated before the read has side effects the initializer could observe",
        "the initializer is nested deeper than max_inline_depth",
        "a comment explains the declaration, or the name serves a type-narrowing check"]
      options := ["max_inline_depth", "pure_functions"] }
  | .parallelCollections =>
    { rule := .parallelCollections
      title := "Parallel collections kept in lock-step"
      rationale := "Two collections derived element-for-element from the same source (or " ++
        "appended together in one loop) are only meaningful when read at the same index.  " ++
        "Keeping them separate means every consumer has to re-establish that alignment; one " ++
        "sequence of records makes it explicit."
      before := "const imgs = lis.map(li => li.querySelector('img'));\n" ++
        "lis.forEach((li, i) => \x7b\n  imgs[i].alt = li.title;\n\x7d);"
      after := "const liRecords = lis.map(li => (\x7b li, img: li.querySelector('img') \x7d));\n" ++
        "liRecords.forEach((\x7b li, img \x7d, i) => \x7b\n  img.alt = li.title;\n\x7d);"
      withheldWhen := [
        "a member is filtered, sliced, or reassigned so indices no longer line up",
        "a member is mutated after it is built (push, splice, sort, index assignment)",
        "a member escapes: returned, passed to a call, or read outside an aligned loop",
        "the deriving callbacks have side effects whose order would change",
        "the co-building loop can exit early between appends"] }

/-- A name in the spelling of the catalog: capitals, underscores, no blanks around it. -/
def ruleName (s : String) : String :=
  String.ofList ((Text.toCapitals (Text.strip s)).toList.map fun c => if c == '-' then '_' else c)

/-- The rule of a name that is written freely. -/
def Rule.ofName? (s : String) : Option Rule := Rule.ofId? (ruleName s)

namespace CatalogEntry

/-- A paragraph of program text. -/
def codeBlock (s : String) : String := "\x60\x60\x60js\n" ++ s ++ "\n\x60\x60\x60"

/-- The entry as text. -/
def render (e : CatalogEntry) : String :=
  "\n\n".intercalate
    (["## " ++ e.rule.id ++ " — " ++ e.title, "### Rationale\n" ++ e.rationale,
      "### Before\n" ++ codeBlock e.before, "### After\n" ++ codeBlock e.after,
      "\n- ".intercalate ("### Rewrite Withheld When" :: e.withheldWhen)] ++
    if e.options.isEmpty then [] else ["### Options\n" ++ ", ".intercalate e.options])

/-- The row of the entry in the list of the rules. -/
def tableRow (e : CatalogEntry) : String := "| \x60" ++ e.rule.id ++ "\x60 | " ++ e.title ++ " |"

end CatalogEntry

/-- What is said of a name that no rule has. -/
def unknownRule (name : String) : String := "Unknown rule: " ++ name

/-- The entry of the rule that has a name, as text. -/
def explain (name : String) : String :=
  match Rule.ofName? name with
  | some r => r.entry.render
  | none => unknownRule name

/-- The list of the rules. -/
def ruleTable : String :=
  "\n".intercalate
    ("| Rule | Title |" :: "|------|-------|" :: Rule.all.map (·.entry.tableRow))

end Declutter
