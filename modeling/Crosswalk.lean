import Crosswalk.Binary64
import Crosswalk.Command.Folder
import Crosswalk.Command.Options
import Crosswalk.Command.Run
import Crosswalk.Command.System
import Crosswalk.Decimal.Basic
import Crosswalk.Decimal.Layout
import Crosswalk.Decimal.Reading
import Crosswalk.Decimal.Shortest
import Crosswalk.Error
import Crosswalk.Format
import Crosswalk.Json.Basic
import Crosswalk.Json.Printer
import Crosswalk.Json.Reader
import Crosswalk.Json.Records
import Crosswalk.Json.Scan
import Crosswalk.Main
import Crosswalk.Members
import Crosswalk.Number
import Crosswalk.Path.Access
import Crosswalk.Path.Basic
import Crosswalk.Path.Memo
import Crosswalk.Path.Parser
import Crosswalk.Path.Segment
import Crosswalk.Path.Slice
import Crosswalk.Plan.Basic
import Crosswalk.Plan.Compiler
import Crosswalk.Plan.Converter
import Crosswalk.Plan.Direction
import Crosswalk.Plan.Run
import Crosswalk.Plan.Sheet
import Crosswalk.Proofs.Command.Action
import Crosswalk.Proofs.Command.Folder
import Crosswalk.Proofs.Command.Run
import Crosswalk.Proofs.Decimal.Digits
import Crosswalk.Proofs.Decimal.Positional
import Crosswalk.Proofs.Decimal.Rounding
import Crosswalk.Proofs.Decimal.Shortest
import Crosswalk.Proofs.Json.NormalForm
import Crosswalk.Proofs.Json.Numbers
import Crosswalk.Proofs.Members
import Crosswalk.Proofs.Number
import Crosswalk.Proofs.Outcome
import Crosswalk.Proofs.Path.Clean
import Crosswalk.Proofs.Path.Commute
import Crosswalk.Proofs.Path.Composition
import Crosswalk.Proofs.Path.Derivation
import Crosswalk.Proofs.Path.Fan
import Crosswalk.Proofs.Path.Faults
import Crosswalk.Proofs.Path.Frame
import Crosswalk.Proofs.Path.Fresh
import Crosswalk.Proofs.Path.Grammar
import Crosswalk.Proofs.Path.Lookahead
import Crosswalk.Proofs.Path.Overlay
import Crosswalk.Proofs.Path.Places
import Crosswalk.Proofs.Path.ReadWrite
import Crosswalk.Proofs.Path.Rendering
import Crosswalk.Proofs.Path.Rereading
import Crosswalk.Proofs.Path.Segments
import Crosswalk.Proofs.Path.SingleSlices
import Crosswalk.Proofs.Path.SliceEffect
import Crosswalk.Proofs.Path.SliceFrame
import Crosswalk.Proofs.Path.SlicePositions
import Crosswalk.Proofs.Path.SliceWords
import Crosswalk.Proofs.Path.Stops
import Crosswalk.Proofs.Path.Tiling
import Crosswalk.Proofs.Path.WriteRead
import Crosswalk.Proofs.Plan.Clean
import Crosswalk.Proofs.Plan.Compilation
import Crosswalk.Proofs.Plan.Conflicts
import Crosswalk.Proofs.Plan.Failure
import Crosswalk.Proofs.Plan.Independence
import Crosswalk.Proofs.Plan.Missing
import Crosswalk.Proofs.Plan.Overrides
import Crosswalk.Proofs.Plan.Reversal
import Crosswalk.Proofs.Plan.ScalarText
import Crosswalk.Proofs.Plan.Writes
import Crosswalk.Proofs.Text.Blank
import Crosswalk.Proofs.Text.EditDistance
import Crosswalk.Proofs.Text.Suggestion
import Crosswalk.Proofs.Toml.Pruning
import Crosswalk.Proofs.Value.Alike
import Crosswalk.Proofs.Value.Clean
import Crosswalk.Proofs.Value.Merge
import Crosswalk.Proofs.Value.Parts
import Crosswalk.Proofs.Value.Remerging
import Crosswalk.Proofs.Yaml.MergeKeys
import Crosswalk.Schema
import Crosswalk.Text.Blank
import Crosswalk.Text.CasedTable
import Crosswalk.Text.EditDistance
import Crosswalk.Text.Hex
import Crosswalk.Text.HiddenTable
import Crosswalk.Text.Lower
import Crosswalk.Text.LowerTable
import Crosswalk.Text.Shown
import Crosswalk.Text.Suggestion
import Crosswalk.Toml.Basic
import Crosswalk.Toml.Draft
import Crosswalk.Toml.Moment
import Crosswalk.Toml.Printer
import Crosswalk.Toml.Reader
import Crosswalk.Toml.Records
import Crosswalk.Toml.Scan
import Crosswalk.Value.Basic
import Crosswalk.Value.Display
import Crosswalk.Value.Merge
import Crosswalk.Yaml.Basic
import Crosswalk.Yaml.Lexer
import Crosswalk.Yaml.Node
import Crosswalk.Yaml.Printer
import Crosswalk.Yaml.Reader
import Crosswalk.Yaml.Records
import Crosswalk.Yaml.Scalar
import Crosswalk.Yaml.ScalarText
import Crosswalk.Yaml.Token
