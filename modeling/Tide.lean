import Tide.Command.Arguments
import Tide.Command.Basic
import Tide.Command.Listing
import Tide.Config.Basic
import Tide.Config.Document
import Tide.Config.Load
import Tide.Data.Datum
import Tide.Data.Json
import Tide.Data.Plain
import Tide.Data.Yaml
import Tide.Eval.Evaluate
import Tide.Eval.Machine
import Tide.Eval.Native
import Tide.Eval.Run
import Tide.Files.Host
import Tide.Files.Tree
import Tide.Grammar.Basic
import Tide.Grammar.Expression
import Tide.Grammar.Fault
import Tide.Grammar.Program
import Tide.Main
import Tide.Number.Binary64
import Tide.Number.Layout
import Tide.Number.Power
import Tide.Number.Reading
import Tide.Number.Shortest
import Tide.Scope.Store
import Tide.Session.Basic
import Tide.Session.Bracket
import Tide.Session.Report
import Tide.Source.Diagnostic
import Tide.Source.Span
import Tide.Text.Blank
import Tide.Text.Bytes
import Tide.Text.Letter
import Tide.Text.Numeral
import Tide.Text.Path
import Tide.Text.Printable
import Tide.Text.Quoted
import Tide.Text.Ranges
import Tide.Text.Utf8
import Tide.Token.Basic
import Tide.Token.Kind
import Tide.Token.Scan
import Tide.Tree.Format
import Tide.Tree.Node
import Tide.Tree.Outline
import Tide.Value.Basic
import Tide.Value.Fields
import Tide.Value.Operator
import Tide.Proofs.Number.Units
import Tide.Proofs.Number.Addition
import Tide.Proofs.Number.Whole
import Tide.Proofs.Grammar.Rules
import Tide.Proofs.Eval.Linked
import Tide.Proofs.Eval.Signals
import Tide.Proofs.Eval.Joined
import Tide.Proofs.Grammar.Stable
import Tide.Proofs.Grammar.Seen
import Tide.Proofs.Token.Brackets
import Tide.Proofs.Session.Buffering
import Tide.Proofs.Session.Complete
import Tide.Proofs.Eval.Constants
import Tide.Proofs.Eval.Positions
import Tide.Proofs.Scope.WellFormed
import Tide.Proofs.Eval.Scopes
import Tide.Proofs.Scope.Outward
import Tide.Proofs.Scope.Laws
import Tide.Proofs.Eval.Privacy
import Tide.Proofs.Eval.Locality
import Tide.Proofs.Eval.Range
import Tide.Proofs.Grammar.Returns
import Tide.Proofs.Grammar.Shapes
import Tide.Proofs.Eval.Internal
import Tide.Proofs.Token.Tiling
import Tide.Proofs.Grammar.Nesting
import Tide.Proofs.Grammar.Stops
import Tide.Proofs.Grammar.Lossless
import Tide.Proofs.Grammar.Formulas
import Tide.Proofs.Grammar.Grouping
import Tide.Proofs.Grammar.Alignment
import Tide.Proofs.Grammar.Lockstep
import Tide.Proofs.Grammar.Layout
import Tide.Proofs.Grammar.Totality
import Tide.Proofs.Text.Widths
import Tide.Proofs.Token.Advance
import Tide.Proofs.Token.Columns
import Tide.Proofs.Token.Literals
import Tide.Proofs.Tree.Outlined
import Tide.Proofs.Eval.Progression
import Tide.Proofs.Session.Waiting
import Tide.Proofs.Eval.Objects
