import Declutter.Analysis.Collect
import Declutter.Analysis.File
import Declutter.Analysis.Review
import Declutter.Analysis.Session
import Declutter.Analysis.Triage
import Declutter.Binding.Basic
import Declutter.Binding.Declared
import Declutter.Binding.Narrowing
import Declutter.Binding.Reference
import Declutter.Binding.SingleUse
import Declutter.Collection.Arena
import Declutter.Collection.EarlyExit
import Declutter.Collection.Group
import Declutter.Collection.Iteration
import Declutter.Collection.Origin
import Declutter.CommandLine.Command
import Declutter.CommandLine.Option
import Declutter.CommandLine.Run
import Declutter.Config.Basic
import Declutter.Config.Setting
import Declutter.Decimal.Binary
import Declutter.Decimal.Shortest
import Declutter.Edit
import Declutter.Sort
import Declutter.Expression.Effect
import Declutter.Expression.Evaluation
import Declutter.Expression.Precedence
import Declutter.Files.Path
import Declutter.Files.Replace
import Declutter.Files.Source
import Declutter.Files.Tree
import Declutter.Finding.Basic
import Declutter.Finding.Catalog
import Declutter.Finding.Defect
import Declutter.Finding.Rule
import Declutter.Finding.Withheld
import Declutter.Main
import Declutter.Merge.CoBuilt
import Declutter.Merge.Plan
import Declutter.Merge.Rewrite
import Declutter.Merge.Usages
import Declutter.Merge.Views
import Declutter.Naming
import Declutter.Report.Basic
import Declutter.Report.Json
import Declutter.Report.Markdown
import Declutter.Rewrite.Inline
import Declutter.Rewrite.Removal
import Declutter.Span
import Declutter.Syntax.Comment
import Declutter.Syntax.Concrete
import Declutter.Syntax.Kind
import Declutter.Syntax.Language
import Declutter.Syntax.Listing
import Declutter.Syntax.Outline
import Declutter.Syntax.Parse
import Declutter.Syntax.Scope
import Declutter.Syntax.Statement
import Declutter.Syntax.Tree
import Declutter.Text.Alphanumeric
import Declutter.Text.Blank
import Declutter.Text.Bytes
import Declutter.Text.Capital
import Declutter.Text.Digit
import Declutter.Text.Printable
import Declutter.Text.Quoted
import Declutter.Text.Utf8
import Declutter.Proofs.Text.Line
import Declutter.Proofs.Text.Utf8
import Declutter.Proofs.Splice
import Declutter.Proofs.Analysis.Pass
import Declutter.Proofs.Analysis.Passes
import Declutter.Proofs.Analysis.Total
import Declutter.Proofs.Analysis.Acceptance
import Declutter.Proofs.Analysis.Copying
import Declutter.Proofs.Analysis.Exemption
import Declutter.Proofs.Analysis.Session
import Declutter.Proofs.Binding.Accounting
import Declutter.Proofs.Binding.Declaration
import Declutter.Proofs.Binding.Resolution
import Declutter.Proofs.Expression.Context
import Declutter.Proofs.Expression.Grammar
import Declutter.Proofs.Expression.Place
import Declutter.Proofs.Expression.Reading
import Declutter.Proofs.Expression.Statement
import Declutter.Proofs.Expression.Wrapping
import Declutter.Proofs.Merge.Coverage
import Declutter.Proofs.Merge.Deletion
import Declutter.Proofs.Merge.Parts
import Declutter.Proofs.Merge.Texts
import Declutter.Proofs.Report.ExitCode
import Declutter.Proofs.Rewrite.Guard
import Declutter.Proofs.Rewrite.Inlining
import Declutter.Proofs.Rewrite.Mentions
import Declutter.Proofs.Rewrite.Removal
import Declutter.Proofs.Syntax.Spacing
import Declutter.Proofs.Analysis.RecordNames
import Declutter.Proofs.Syntax.Scoping
import Declutter.Proofs.Binding.Visibility
import Declutter.Proofs.Rewrite.Capture
import Declutter.Proofs.Rewrite.Destructuring
import Declutter.Proofs.Rewrite.Exits
import Declutter.Proofs.Rewrite.Substitution
import Declutter.Proofs.Rewrite.Callee
import Declutter.Proofs.Rewrite.Chain
import Declutter.Proofs.Binding.Assignment
import Declutter.Proofs.Rewrite.Construction
import Declutter.Proofs.Rewrite.Boundary
import Declutter.Proofs.Rewrite.Assertion
import Declutter.Proofs.Collection.Members
import Declutter.Proofs.Collection.Mutation
import Declutter.Proofs.Merge.Observation
import Declutter.Proofs.Expression.Heap
import Declutter.Proofs.Merge.Moving
import Declutter.Proofs.Merge.Marking
import Declutter.Proofs.Syntax.Execution
import Declutter.Proofs.Collection.EarlyExit
import Declutter.Proofs.Collection.Suspension
import Declutter.Proofs.Collection.Counting
import Declutter.Proofs.Collection.Partition
import Declutter.Proofs.Binding.Hoisting
import Declutter.Proofs.Binding.Exactness
import Declutter.Proofs.Merge.Renaming
import Declutter.Proofs.Merge.InScope
import Declutter.Proofs.Syntax.Layout
import Declutter.Proofs.Rewrite.Extent
import Declutter.Proofs.Rewrite.Feasible
import Declutter.Proofs.Merge.NewNames
import Declutter.Proofs.Text.Identifier
import Declutter.Proofs.Merge.LegalNames
import Declutter.Proofs.Binding.Loosening
import Declutter.Proofs.Selection
import Declutter.Proofs.Analysis.Verdicts
import Declutter.Proofs.Syntax.Cursor
import Declutter.Proofs.Syntax.Places
import Declutter.Proofs.Rewrite.Neighbours
import Declutter.Proofs.Syntax.Fault
import Declutter.Proofs.Collection.Anchors
import Declutter.Proofs.Syntax.Nesting
import Declutter.Proofs.Syntax.Lexical
import Declutter.Proofs.Binding.Innermost
import Declutter.Proofs.Position
import Declutter.Proofs.Merge.NameChoice
