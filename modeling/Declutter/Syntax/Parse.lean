import Declutter.Sort
import Declutter.Syntax.Scope

/-!
# Parsing

A grammar turns a source into a concrete tree; this module turns the concrete tree into the tree
that the analyses work on, or says where the first syntax error lies.

## Main definitions

* `Outline.nodes` — the constructs of an outline as a table.
* `Tree.ofConcrete` — the syntax tree of a concrete tree.
* `ParseError` — why a source has no syntax tree.
* `Grammar`, `Tree.parse` — parsing a source by means of a grammar.
-/

namespace Declutter

namespace Outline

/-- The numbers of siblings, the first of which has the number `i`. -/
def siblingIds (i : NodeId) : List Outline → List NodeId
  | [] => []
  | o :: rest => i :: siblingIds (i + o.size) rest

mutual

/-- The table of the construct numbered `i` and those below it.  The scopes are left open. -/
def nodes (source : Bytes) (parent : Option NodeId) (i : NodeId) : Outline → List Node
  | node l children =>
    { kind := l.kind
      type := l.type
      span := .ofOffsets source l.start l.stop
      field := l.field
      marks := l.marks
      parent
      children := siblingIds (i + 1) children
      stop := i + 1 + sizeAll children
      scope := 0 } :: nodesAll source i (i + 1) children

/-- The table of siblings, the first of which has the number `i`. -/
def nodesAll (source : Bytes) (parent : NodeId) (i : NodeId) : List Outline → List Node
  | [] => []
  | o :: rest => nodes source (some parent) i o ++ nodesAll source parent (i + o.size) rest

end

end Outline

/-- The comment at a concrete node. -/
def Comment.ofHead (source : Bytes) (h : Concrete.Head) : Comment where
  span := .ofOffsets source h.start h.stop
  text := Utf8.decode (Bytes.slice source h.start h.stop)
  ownLine := Bytes.startsLine source h.start

/-- The syntax tree of a concrete tree. -/
def Tree.ofConcrete (language : Language) (source : Bytes) (root : Concrete) : Tree :=
  let outline := root.outline
  let (scopes, places) := outline.scopes
  let nodes := outline.nodes source none 0
  let comments := root.comments.map (Comment.ofHead source)
  { source
    language
    nodes := (nodes.zipWith (fun n scope => { n with scope }) places).toArray
    scopes := scopes.toArray
    comments := sortBy (fun a b => a.span.start ≤ b.span.start) comments }

/-- Why a source has no syntax tree. -/
inductive ParseError where
  /-- The source is no text. -/
  | binary
  /-- A node of the concrete tree marks a syntax error: a token that is missing, or text that
  fits nowhere and begins with `excerpt`. -/
  | fault (span : Span) (missing : Bool) (excerpt : String)
  deriving DecidableEq, Repr, Inhabited

namespace ParseError

/-- Where the error lies. -/
def span? : ParseError → Option Span
  | binary => none
  | fault span .. => some span

/-- What is said of the error. -/
def message : ParseError → String
  | binary => "Binary content is not JavaScript source"
  | fault span missing excerpt =>
    let what := if missing then "missing token" else "syntax error"
    s!"{span.first.line}:{span.first.column}: {what} near '{excerpt}'"

/-- The greatest number of characters of an excerpt. -/
def excerptLength : Nat := 40

/-- The error at a concrete node. -/
def ofHead (source : Bytes) (h : Concrete.Head) (missing : Bool) : ParseError :=
  let text := Utf8.decode (Bytes.slice source h.start h.stop)
  .fault (.ofOffsets source h.start h.stop) missing
    (Text.clip excerptLength (Text.firstLine text))

end ParseError

/-- The number of bytes in which a zero byte betrays binary content. -/
def Bytes.binaryWindow : Nat := 8192

/-- Whether the bytes are taken for something else than text. -/
def Bytes.isBinary (source : Bytes) : Bool := (source.take binaryWindow).contains 0

/-- A way to make concrete trees of sources. -/
abbrev Grammar (m : Type → Type) := Language → Bytes → m Parsed

/-- The tree of what a grammar made of a source, or the first error in it. -/
def Parsed.toTree (p : Parsed) (language : Language) (source : Bytes) : Except ParseError Tree :=
  if p.faulty then
    match p.root.firstFault? with
    | some h => .error (.ofHead source h h.missing)
    | none => .error (.ofHead source p.root.head false)
  else .ok (.ofConcrete language source p.root)

/-- The syntax tree of a source.  Binary content is refused before the grammar is asked. -/
def Tree.parse {m : Type → Type} [Monad m] (grammar : Grammar m) (language : Language)
    (source : Bytes) : m (Except ParseError Tree) :=
  if source.isBinary then pure (.error .binary)
  else do
    let parsed ← grammar language source
    return parsed.toTree language source

end Declutter
