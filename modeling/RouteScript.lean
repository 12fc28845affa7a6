import RouteScript.Main
import RouteScript.Query.Compile
import RouteScript.Tree.Sexp
import RouteScript.Proofs.History
import RouteScript.Proofs.Lossless.Tree
import RouteScript.Proofs.Alike.Items
import RouteScript.Proofs.Program.Basic
import RouteScript.Proofs.Program.Expression
import RouteScript.Proofs.Program.Fitting
import RouteScript.Proofs.Program.Items
import RouteScript.Proofs.Recovery.Stray
import RouteScript.Proofs.Recovery.Index
import RouteScript.Proofs.Nesting.Nested
import RouteScript.Proofs.Nesting.Order
import RouteScript.Proofs.Nesting.Tree
import RouteScript.Proofs.Query.Match
import RouteScript.Proofs.Query.Written
import RouteScript.Proofs.Query.Compile
import RouteScript.Proofs.Query.Grouped
import RouteScript.Proofs.Query.Keys
import RouteScript.Proofs.Query.Repeats
import RouteScript.Proofs.Nesting.Spans
import RouteScript.Proofs.Braces.Basic
import RouteScript.Proofs.Braces.Rules
import RouteScript.Proofs.Braces.Expression
import RouteScript.Proofs.Braces.Statement
import RouteScript.Proofs.Braces.Items
import RouteScript.Proofs.Braces.Tree
import RouteScript.Proofs.Editor.Rows
import RouteScript.Proofs.Editor.Edits
import RouteScript.Proofs.Editor.Nodes
import RouteScript.Proofs.Format.Lexeme
import RouteScript.Proofs.Format.Reading
import RouteScript.Proofs.Format.Breaks
import RouteScript.Proofs.Format.Line
import RouteScript.Proofs.Format.Core
import RouteScript.Proofs.Format.Tidied
import RouteScript.Proofs.Format.Paired
import RouteScript.Proofs.Format.Settled
import RouteScript.Proofs.Format.Stable
import RouteScript.Proofs.Format.Plain
import RouteScript.Proofs.Session.Changes
import RouteScript.Proofs.Paths
import RouteScript.Proofs.Session.Seen
import RouteScript.Proofs.Session.Connection
import RouteScript.Proofs.Session.Overlap
import RouteScript.Proofs.Extras.Cursor
import RouteScript.Proofs.Extras.Query
import RouteScript.Proofs.Extras.Rules
import RouteScript.Proofs.Extras.Draft
import RouteScript.Proofs.Program.Places
import RouteScript.Proofs.Program.Assignments
import RouteScript.Proofs.Program.Laid
import RouteScript.Proofs.Program.Standing
import RouteScript.Proofs.Program.Recorded
import RouteScript.Proofs.Variables
import RouteScript.Proofs.Formed.Rules
import RouteScript.Proofs.Formed.Expression
import RouteScript.Proofs.Formed.Statement
import RouteScript.Proofs.Formed.Items
import RouteScript.Proofs.Siblings
import RouteScript.Proofs.Unreachable
import RouteScript.Proofs.Descent
import RouteScript.Proofs.Hover
import RouteScript.Proofs.Words
import RouteScript.Proofs.Program.Parts
import RouteScript.Proofs.Program.Routes
import RouteScript.Proofs.Definition
import RouteScript.Proofs.Scanned
import RouteScript.Proofs.Spelling
import RouteScript.Proofs.Names
import RouteScript.Proofs.Nesting.Stops
import RouteScript.Proofs.Errors.Basic
import RouteScript.Proofs.Errors.Expression
import RouteScript.Proofs.Errors.Statement
import RouteScript.Proofs.Errors.Report
import RouteScript.Proofs.Labels
import RouteScript.Proofs.Bodies.Faults
import RouteScript.Proofs.Bodies.Reading
import RouteScript.Proofs.Bodies.Checked
import RouteScript.Proofs.Editor.Clamped
import RouteScript.Proofs.Innermost
import RouteScript.Proofs.Format.Depth
import RouteScript.Proofs.Format.Outcome
import RouteScript.Proofs.Precedence.OperatorTree
import RouteScript.Proofs.Precedence.Nodes
import RouteScript.Proofs.Precedence.Expression
import RouteScript.Proofs.Precedence.Statement
import RouteScript.Proofs.Precedence.Reading
import RouteScript.Proofs.Precedence.Climbing
import RouteScript.Proofs.Precedence.Tree
import RouteScript.Proofs.Documentation.Owners
import RouteScript.Proofs.Documentation.Examples
import RouteScript.Proofs.Inline
import RouteScript.Proofs.Tiling
import RouteScript.Proofs.Depth.Basic
import RouteScript.Proofs.Depth.Counter
import RouteScript.Proofs.Depth.Expression
import RouteScript.Proofs.Depth.Statement
import RouteScript.Proofs.Table.Basic
import RouteScript.Proofs.Table.Frozen
import RouteScript.Proofs.Progress.Turns
import RouteScript.Proofs.Progress.Grammar
