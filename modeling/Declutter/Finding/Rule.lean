/-!
# Rules

The two things the analysis looks for.

## Main definitions

* `Rule` — the rules.
* `Rule.id` — the name by which a rule is enabled and reported.
-/

namespace Declutter

/-- What the analysis looks for. -/
inductive Rule where
  /-- A local that is read once, right after its declaration. -/
  | singleUse
  /-- Collections that hold matching elements at the same indices. -/
  | parallelCollections
  deriving DecidableEq, Repr, Inhabited

namespace Rule

/-- The rules in the order in which they are explained. -/
def all : List Rule := [singleUse, parallelCollections]

/-- The name of a rule. -/
def id : Rule → String
  | singleUse => "INLINABLE_SINGLE_USE"
  | parallelCollections => "DUPLICATED_PARALLEL_COLLECTION"

/-- The rule of a name. -/
def ofId? (s : String) : Option Rule := all.find? (·.id == s)

@[simp] theorem ofId?_id (r : Rule) : ofId? r.id = some r := by cases r <;> decide

/-- The place of a rule in the alphabetical order of the names. -/
def rank : Rule → Nat
  | parallelCollections => 0
  | singleUse => 1

end Rule

end Declutter
