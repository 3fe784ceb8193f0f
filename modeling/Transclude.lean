import Transclude.Bracket
import Transclude.CommandLine.Execute
import Transclude.CommandLine.Reading
import Transclude.CommandLine.Request
import Transclude.CommandLine.Word
import Transclude.Comment
import Transclude.DataFile
import Transclude.Directive.Basic
import Transclude.Directive.Split
import Transclude.Document
import Transclude.Error
import Transclude.Expr.Basic
import Transclude.Expr.Condition
import Transclude.Expr.Eval
import Transclude.Expr.Lexer
import Transclude.Expr.Parser
import Transclude.Expr.Printer
import Transclude.Expr.Scope
import Transclude.Expr.Token
import Transclude.Fault
import Transclude.FileTree
import Transclude.Filter.Basic
import Transclude.Filter.Chain
import Transclude.Filter.Pipeline
import Transclude.Filter.Reference
import Transclude.Include.Arguments
import Transclude.Include.Expand
import Transclude.Include.Frame
import Transclude.Include.Parameter
import Transclude.Json.Error
import Transclude.Json.Reader
import Transclude.Loop.Body
import Transclude.Loop.Render
import Transclude.Main
import Transclude.Number.Basic
import Transclude.Number.Binary64
import Transclude.Number.Decimal
import Transclude.Number.Shortest
import Transclude.Path
import Transclude.Proofs.Agreement
import Transclude.Proofs.Balance
import Transclude.Proofs.Blocks
import Transclude.Proofs.Brackets
import Transclude.Proofs.Branches
import Transclude.Proofs.Building
import Transclude.Proofs.Chains
import Transclude.Proofs.Comments
import Transclude.Proofs.Completion
import Transclude.Proofs.Composition
import Transclude.Proofs.Conditions
import Transclude.Proofs.Counting
import Transclude.Proofs.DataReferences
import Transclude.Proofs.Derivation
import Transclude.Proofs.DerivedTree
import Transclude.Proofs.Digits
import Transclude.Proofs.DottedNames
import Transclude.Proofs.Equalities
import Transclude.Proofs.ErrorPositions
import Transclude.Proofs.Evaluated
import Transclude.Proofs.Expansion
import Transclude.Proofs.Faults
import Transclude.Proofs.Flattening
import Transclude.Proofs.FloatText
import Transclude.Proofs.Frames
import Transclude.Proofs.FreeNames
import Transclude.Proofs.FurtherContext
import Transclude.Proofs.Grammar
import Transclude.Proofs.Growing
import Transclude.Proofs.Header
import Transclude.Proofs.Identities
import Transclude.Proofs.Inclusion
import Transclude.Proofs.Indentation
import Transclude.Proofs.Isolation
import Transclude.Proofs.JsonBraces
import Transclude.Proofs.JsonText
import Transclude.Proofs.KeyEquality
import Transclude.Proofs.Keys
import Transclude.Proofs.Layout
import Transclude.Proofs.Leaves
import Transclude.Proofs.Listing
import Transclude.Proofs.Lookahead
import Transclude.Proofs.LoopFaults
import Transclude.Proofs.Matching
import Transclude.Proofs.Membership
import Transclude.Proofs.Merging
import Transclude.Proofs.Nesting
import Transclude.Proofs.NumericText
import Transclude.Proofs.Occurrences
import Transclude.Proofs.Operations
import Transclude.Proofs.Outcome
import Transclude.Proofs.Outputs
import Transclude.Proofs.Overflow
import Transclude.Proofs.Overlay
import Transclude.Proofs.Parsing
import Transclude.Proofs.Partition
import Transclude.Proofs.Parts
import Transclude.Proofs.Passing
import Transclude.Proofs.Paths
import Transclude.Proofs.Placeholders
import Transclude.Proofs.Points
import Transclude.Proofs.PrintedHeaders
import Transclude.Proofs.Printing
import Transclude.Proofs.QuotedText
import Transclude.Proofs.Quotients
import Transclude.Proofs.Reading
import Transclude.Proofs.ReadingBack
import Transclude.Proofs.ReadingDepth
import Transclude.Proofs.Rebuilding
import Transclude.Proofs.References
import Transclude.Proofs.Refusal
import Transclude.Proofs.Regrouping
import Transclude.Proofs.Relabeling
import Transclude.Proofs.Relocation
import Transclude.Proofs.Repetition
import Transclude.Proofs.Replacement
import Transclude.Proofs.RoundTrip
import Transclude.Proofs.Rounding
import Transclude.Proofs.Scanning
import Transclude.Proofs.ShortestDigits
import Transclude.Proofs.Silence
import Transclude.Proofs.Slicing
import Transclude.Proofs.Spelling
import Transclude.Proofs.Staging
import Transclude.Proofs.Stripping
import Transclude.Proofs.Substitution
import Transclude.Proofs.Template
import Transclude.Proofs.Termination
import Transclude.Proofs.Unrolling
import Transclude.Proofs.Variables
import Transclude.Proofs.Ways
import Transclude.Proofs.Words
import Transclude.Proofs.Wrapping
import Transclude.Proofs.Writing
import Transclude.Render
import Transclude.Run
import Transclude.Settings.Basic
import Transclude.Settings.Load
import Transclude.Text.Blank
import Transclude.Text.Digit
import Transclude.Text.Indent
import Transclude.Text.Lower
import Transclude.Text.Printable
import Transclude.Text.Quoted
import Transclude.Text.Ranges
import Transclude.Text.Utf8
import Transclude.Text.Word
import Transclude.Tree.Build
import Transclude.Tree.Glob
import Transclude.Tree.Source
import Transclude.Value.Basic
import Transclude.Value.Calendar
import Transclude.Value.Coerce
import Transclude.Value.Equality
import Transclude.Value.Merge
import Transclude.Value.Property
import Transclude.Value.Shown
import Transclude.Value.Text
import Transclude.Variable
import Transclude.Yaml.Base64
import Transclude.Yaml.Cursor
import Transclude.Yaml.Document
import Transclude.Yaml.Lexer
import Transclude.Yaml.Node
import Transclude.Yaml.Object
import Transclude.Yaml.Problem
import Transclude.Yaml.Reader
import Transclude.Yaml.Scalar
import Transclude.Yaml.Schema
import Transclude.Yaml.Tag
import Transclude.Yaml.Timestamp
import Transclude.Yaml.Token
