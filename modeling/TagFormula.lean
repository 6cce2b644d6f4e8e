import TagFormula.Buffer.Basic
import TagFormula.Buffer.Edit
import TagFormula.Buffer.Error
import TagFormula.Buffer.Rendering
import TagFormula.Buffer.Tagging
import TagFormula.Catalog
import TagFormula.Command.Arguments
import TagFormula.Command.Basic
import TagFormula.Command.Run
import TagFormula.Event.Basic
import TagFormula.Event.Emission
import TagFormula.Event.Host
import TagFormula.Event.Log
import TagFormula.Event.Outlet
import TagFormula.Event.Truncation
import TagFormula.Formula.Arithmetic
import TagFormula.Formula.Error
import TagFormula.Formula.Evaluation
import TagFormula.Formula.Expr
import TagFormula.Formula.Parser
import TagFormula.Formula.Preparation
import TagFormula.Formula.Token
import TagFormula.Json.Basic
import TagFormula.Json.Conversion
import TagFormula.Json.Parser
import TagFormula.Json.Printer
import TagFormula.Json.Strict
import TagFormula.Json.String
import TagFormula.Main
import TagFormula.Number.Basic
import TagFormula.Number.Binary64
import TagFormula.Number.Decimal
import TagFormula.Number.Layout
import TagFormula.Number.Literal
import TagFormula.Number.Power
import TagFormula.Project.Config
import TagFormula.Project.Files
import TagFormula.Project.Location
import TagFormula.Project.Opening
import TagFormula.Session.Basic
import TagFormula.Session.Editing
import TagFormula.Session.Key
import TagFormula.Tag
import TagFormula.Text.Basic
import TagFormula.Text.Blank
import TagFormula.Text.CodePoint
import TagFormula.Text.Column
import TagFormula.Text.Digit
import TagFormula.Text.Lines
import TagFormula.Text.LowerCase
import TagFormula.Text.Plain
import TagFormula.Text.Printable
import TagFormula.Text.Quoted
import TagFormula.Text.Utf8
import TagFormula.Walkthrough
import TagFormula.Proofs.Buffer.Atomicity
import TagFormula.Proofs.Buffer.Cell
import TagFormula.Proofs.Buffer.Change
import TagFormula.Proofs.Buffer.Check
import TagFormula.Proofs.Buffer.Edits
import TagFormula.Proofs.Buffer.Layout
import TagFormula.Proofs.Buffer.Lookup
import TagFormula.Proofs.Buffer.Matching
import TagFormula.Proofs.Buffer.Operation
import TagFormula.Proofs.Buffer.Partition
import TagFormula.Proofs.Buffer.Refinement
import TagFormula.Proofs.Buffer.Refusal
import TagFormula.Proofs.Buffer.Rendering
import TagFormula.Proofs.Buffer.Reordering
import TagFormula.Proofs.Buffer.Tagging
import TagFormula.Proofs.Buffer.Undoing
import TagFormula.Proofs.Event.Attribution
import TagFormula.Proofs.Event.Calls
import TagFormula.Proofs.Event.Contexts
import TagFormula.Proofs.Event.Entries
import TagFormula.Proofs.Event.Filter
import TagFormula.Proofs.Event.History
import TagFormula.Proofs.Event.Isolation
import TagFormula.Proofs.Event.Lines
import TagFormula.Proofs.Event.Shape
import TagFormula.Proofs.Event.Tolerance
import TagFormula.Proofs.Event.Trail
import TagFormula.Proofs.Event.Truncation
import TagFormula.Proofs.Event.Window
import TagFormula.Proofs.Event.Writing
import TagFormula.Proofs.Formula.Classification
import TagFormula.Proofs.Formula.Contexts
import TagFormula.Proofs.Formula.Faults
import TagFormula.Proofs.Formula.Formatting
import TagFormula.Proofs.Formula.Fusion
import TagFormula.Proofs.Formula.Grammar
import TagFormula.Proofs.Formula.Literals
import TagFormula.Proofs.Formula.Nesting
import TagFormula.Proofs.Formula.Offsets
import TagFormula.Proofs.Formula.Operand
import TagFormula.Proofs.Formula.Overflow
import TagFormula.Proofs.Formula.Parsing
import TagFormula.Proofs.Formula.Partners
import TagFormula.Proofs.Formula.Preparation
import TagFormula.Proofs.Formula.Scanning
import TagFormula.Proofs.Formula.Spacing
import TagFormula.Proofs.Formula.Splitting
import TagFormula.Proofs.Formula.Stack
import TagFormula.Proofs.Formula.Substitution
import TagFormula.Proofs.Formula.Trailing
import TagFormula.Proofs.Formula.Transparency
import TagFormula.Proofs.Formula.Values
import TagFormula.Proofs.Json.Characters
import TagFormula.Proofs.Json.Numerals
import TagFormula.Proofs.Json.RoundTrip
import TagFormula.Proofs.Json.Sorting
import TagFormula.Proofs.Json.Strings
import TagFormula.Proofs.Number.Nearest
import TagFormula.Proofs.Number.Negation
import TagFormula.Proofs.Number.NonFinite
import TagFormula.Proofs.Number.Notation
import TagFormula.Proofs.Number.Plain
import TagFormula.Proofs.Number.ReadBack
import TagFormula.Proofs.Number.Value
import TagFormula.Proofs.Project.Files
import TagFormula.Proofs.Session.Actions
import TagFormula.Proofs.Session.Composition
import TagFormula.Proofs.Session.Editor
import TagFormula.Proofs.Session.Freshness
import TagFormula.Proofs.Session.Interleaving
import TagFormula.Proofs.Session.Keys
import TagFormula.Proofs.Session.Logging
import TagFormula.Proofs.Session.Offering
import TagFormula.Proofs.Session.Preservation
import TagFormula.Proofs.Session.Refinement
import TagFormula.Proofs.Session.Replay
import TagFormula.Proofs.Session.Result
import TagFormula.Proofs.Session.Simulation
import TagFormula.Proofs.Session.Trail
import TagFormula.Proofs.Slice
import TagFormula.Proofs.Text.Lines
import TagFormula.Proofs.Text.LowerCase
