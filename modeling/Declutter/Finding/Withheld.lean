import Declutter.Edit
import Declutter.Finding.Defect

/-!
# Withheld rewrites

A finding comes without a rewrite when the code has a shape for which no rewrite is known to keep
its meaning.  This module lists these shapes and how they are reported.

## Main definitions

* `Withheld` — why there is no rewrite.
* `Withheld.message` — what is said of it.
* `Attempt` — a rewrite or part of one, or why there is none.
-/

namespace Declutter

/-- A place where a collection is iterated or used. -/
inductive IterationPlace where
  /-- A method called on a collection. -/
  | iteration (method collection : String)
  /-- A usage of a collection. -/
  | usage (collection : String) (position : Position)
  deriving DecidableEq, Repr, Inhabited

/-- How a place is referred to. -/
def IterationPlace.describe : IterationPlace → String
  | iteration method collection => s!"'{method}' over '{collection}'"
  | usage collection position =>
    s!"usage of '{collection}' at {position.line}:{position.column}"

/-- Why there is no rewrite for a finding. -/
inductive Withheld where
  /-- A binding is not declared with an initial value. -/
  | noCandidate
  /-- Two edits of a removal overlap. -/
  | overlap (first second : Edit)
  /-- Two edits of a merge overlap. -/
  | conflict (first second : Edit)
  | derivedIndirectly (member : String)
  | notMapOrCopy (member anchor : String)
  | notPlainDeclaration (member : String)
  | sharedDeclaration (member : String)
  | callbackMissing (member : String)
  | callbackParameters (member : String)
  | callbackBody (member : String)
  | callbackAsynchronous (member : String)
  | callbackEffects (member : String)
  | nameTaken (name member : String)
  | notPushed (member : String)
  | notConstOrLet (member : String)
  | pushesApart
  | readsLaterName (member name : String)
  | differentBlocks
  | notStatements
  | notAdjacent
  | readWhileBuilt (member : String)
  | zippedTooEarly (collection : String)
  | returnsElements (method : String)
  | arrayParameter (place : IterationPlace)
  | callbackReads (place : IterationPlace) (text : String)
  | callbackNotFunction (place : IterationPlace) (method : String)
  | elementParameterMissing (place : IterationPlace)
  | writtenThroughIndex (collection : String)
  | indexUnproven (place : IterationPlace)
  | unsupportedUsage (place : IterationPlace)
  deriving DecidableEq, Repr, Inhabited

/-- What is said of a finding without a rewrite. -/
def Withheld.message : Withheld → String
  | noCandidate => "binding is not an inlining candidate"
  | overlap a b => Rewrite.clashMessage a b
  | conflict a b => s!"conflicting edits: {Rewrite.clashMessage a b}"
  | derivedIndirectly m => s!"'{m}' is derived through an intermediate collection"
  | notMapOrCopy m anchor => s!"'{m}' is not a map or copy of '{anchor}'"
  | notPlainDeclaration m => s!"'{m}' is not a plain const/let declaration"
  | sharedDeclaration m => s!"'{m}' shares its declaration with other names"
  | callbackMissing m => s!"callback of '{m}' is not a function expression"
  | callbackParameters m => s!"callback of '{m}' is not a single-parameter callback"
  | callbackBody m => s!"callback of '{m}' has a statement body"
  | callbackAsynchronous m => s!"callback of '{m}' is asynchronous"
  | callbackEffects m =>
    s!"callback of '{m}' may have side effects; merging would reorder them"
  | nameTaken name m => s!"'{name}' already names something else in '{m}'"
  | notPushed m => s!"'{m}' is not filled by a push statement"
  | notConstOrLet m => s!"'{m}' is not a const/let declaration"
  | pushesApart => "pushes are not adjacent and their values cannot move"
  | readsLaterName m name => s!"value pushed to '{m}' reads '{name}', declared after the first push"
  | differentBlocks => "member declarations live in different blocks"
  | notStatements => "member declarations are not statements"
  | notAdjacent => "member declarations are not adjacent"
  | readWhileBuilt m => s!"'{m}' is read while the merged collection is built"
  | zippedTooEarly c => s!"'{c}' is zipped before it is complete"
  | returnsElements method => s!"'{method}' over zipped collections returns elements"
  | arrayParameter place => s!"{place.describe}: callback also takes the array parameter"
  | callbackReads place text => s!"{place.describe}: callback reads '{text}'"
  | callbackNotFunction place method =>
    s!"{place.describe}: '{method}' callback is not a function expression"
  | elementParameterMissing place => s!"{place.describe}: callback takes no element parameter"
  | writtenThroughIndex c => s!"'{c}' is written through an index"
  | indexUnproven place => s!"{place.describe}: index is not proven in range"
  | unsupportedUsage place => s!"{place.describe} cannot be rewritten"

/-- Why an attempt at a rewrite fails. -/
inductive Failure where
  | withheld (why : Withheld)
  | defect (d : Defect)
  deriving DecidableEq, Repr, Inhabited

/-- What an attempt at a rewrite leads to. -/
abbrev Attempt := Except Failure

namespace Attempt

/-- Gives up for a reason. -/
def withhold (why : Withheld) : Attempt α := .error (.withheld why)

/-- What is there; a defect if nothing is. -/
def fetch (d : Defect) : Option α → Attempt α
  | some a => .ok a
  | none => .error (.defect d)

/-- Succeeds if a condition holds. -/
def require (condition : Bool) (why : Withheld) : Attempt Unit :=
  if condition then .ok () else withhold why

/-- Runs a check on each element of a list, up to the first failure. -/
def checkAll (check : α → Attempt Unit) : List α → Attempt Unit
  | [] => .ok ()
  | x :: rest =>
    match check x with
    | .ok () => checkAll check rest
    | .error why => .error why

end Attempt

end Declutter
