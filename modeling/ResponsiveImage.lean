import ResponsiveImage.Binary64.Arithmetic
import ResponsiveImage.Binary64.Basic
import ResponsiveImage.Binary64.Rounding
import ResponsiveImage.Binary64.Whole
import ResponsiveImage.Calculation.Arithmetic
import ResponsiveImage.Calculation.Length
import ResponsiveImage.Calculation.Reduction
import ResponsiveImage.CommandLine.Arguments
import ResponsiveImage.CommandLine.Execution
import ResponsiveImage.Decimal.Basic
import ResponsiveImage.Decimal.Fixed
import ResponsiveImage.Decimal.Reading
import ResponsiveImage.Decimal.Shortest
import ResponsiveImage.Files.Discovery
import ResponsiveImage.Files.FileImage
import ResponsiveImage.Files.Path
import ResponsiveImage.Files.Place
import ResponsiveImage.Files.Run
import ResponsiveImage.Files.Tree
import ResponsiveImage.Json.Manifest
import ResponsiveImage.Json.Reading
import ResponsiveImage.Json.Value
import ResponsiveImage.Limits
import ResponsiveImage.Main
import ResponsiveImage.Naming.Manifest
import ResponsiveImage.Naming.Srcset
import ResponsiveImage.Naming.Stem
import ResponsiveImage.Naming.Variant
import ResponsiveImage.Proofs.Binary64.Exact
import ResponsiveImage.Proofs.Binary64.Monotone
import ResponsiveImage.Proofs.Binary64.Nearest
import ResponsiveImage.Proofs.Binary64.Spacing
import ResponsiveImage.Proofs.Binary64.SquareRoot
import ResponsiveImage.Proofs.Binary64.ZeroSign
import ResponsiveImage.Proofs.Calculation.ClosedSpans
import ResponsiveImage.Proofs.Calculation.Continuation
import ResponsiveImage.Proofs.Calculation.Derivation
import ResponsiveImage.Proofs.Calculation.Evaluation
import ResponsiveImage.Proofs.Calculation.Grammar
import ResponsiveImage.Proofs.Calculation.Lengths
import ResponsiveImage.Proofs.Calculation.NumberText
import ResponsiveImage.Proofs.Calculation.Offsets
import ResponsiveImage.Proofs.Calculation.Reading
import ResponsiveImage.Proofs.Calculation.Reduction
import ResponsiveImage.Proofs.Calculation.Rendering
import ResponsiveImage.Proofs.Calculation.Replacement
import ResponsiveImage.Proofs.Calculation.RuleParts
import ResponsiveImage.Proofs.Calculation.Spans
import ResponsiveImage.Proofs.Calculation.Unambiguous
import ResponsiveImage.Proofs.Calculation.Wrapping
import ResponsiveImage.Proofs.Calculation.Written
import ResponsiveImage.Proofs.Decimal.Fewest
import ResponsiveImage.Proofs.Decimal.Numeral
import ResponsiveImage.Proofs.Decimal.ReadBack
import ResponsiveImage.Proofs.Files.Steps
import ResponsiveImage.Proofs.Naming.Candidates
import ResponsiveImage.Proofs.Naming.FileNames
import ResponsiveImage.Proofs.Naming.KeptStems
import ResponsiveImage.Proofs.Naming.PublicPaths
import ResponsiveImage.Proofs.Naming.Stems
import ResponsiveImage.Proofs.Settings.Flags
import ResponsiveImage.Proofs.Settings.Merging
import ResponsiveImage.Proofs.Settings.Ranges
import ResponsiveImage.Proofs.Settings.Reading
import ResponsiveImage.Proofs.Settings.Rendering
import ResponsiveImage.Proofs.Settings.Writing
import ResponsiveImage.Proofs.Sizes.Bounds
import ResponsiveImage.Proofs.Sizes.Claims
import ResponsiveImage.Proofs.Sizes.Closing
import ResponsiveImage.Proofs.Sizes.Comparisons
import ResponsiveImage.Proofs.Sizes.Conditions
import ResponsiveImage.Proofs.Sizes.Coverage
import ResponsiveImage.Proofs.Sizes.Entries
import ResponsiveImage.Proofs.Sizes.Fallback
import ResponsiveImage.Proofs.Sizes.Partition
import ResponsiveImage.Proofs.Sizes.Parts
import ResponsiveImage.Proofs.Sizes.Points
import ResponsiveImage.Proofs.Sizes.Precedence
import ResponsiveImage.Proofs.Sizes.Provision
import ResponsiveImage.Proofs.Sizes.Remaining
import ResponsiveImage.Proofs.Sizes.Rules
import ResponsiveImage.Proofs.Sizes.Values
import ResponsiveImage.Proofs.Text.Balance
import ResponsiveImage.Proofs.Text.Bytes
import ResponsiveImage.Proofs.Text.GroupEnd
import ResponsiveImage.Proofs.Text.Splitting
import ResponsiveImage.Proofs.Text.Trimming
import ResponsiveImage.Proofs.Toml.Documents
import ResponsiveImage.Proofs.Toml.Fields
import ResponsiveImage.Proofs.Toml.Paths
import ResponsiveImage.Proofs.Widths.Counts
import ResponsiveImage.Proofs.Widths.Densities
import ResponsiveImage.Proofs.Widths.Distinct
import ResponsiveImage.Proofs.Widths.Floors
import ResponsiveImage.Proofs.Widths.Outcome
import ResponsiveImage.Proofs.Widths.Positive
import ResponsiveImage.Proofs.Widths.Prediction
import ResponsiveImage.Proofs.Widths.Requests
import ResponsiveImage.Proofs.Widths.Shares
import ResponsiveImage.Proofs.Widths.Sources
import ResponsiveImage.Proofs.Widths.Target
import ResponsiveImage.Reporting.ConfigNote
import ResponsiveImage.Reporting.Lines
import ResponsiveImage.Reporting.Note
import ResponsiveImage.Settings.Document
import ResponsiveImage.Settings.Loading
import ResponsiveImage.Settings.Output
import ResponsiveImage.Settings.Rendering
import ResponsiveImage.Settings.Stock
import ResponsiveImage.Settings.Tool
import ResponsiveImage.Settings.Viewport
import ResponsiveImage.Sizes.Aggregation
import ResponsiveImage.Sizes.BreakpointMap
import ResponsiveImage.Sizes.Condition
import ResponsiveImage.Sizes.Interval
import ResponsiveImage.Sizes.Resolution
import ResponsiveImage.Sizes.Rule
import ResponsiveImage.Text.Blank
import ResponsiveImage.Text.Parenthesis
import ResponsiveImage.Text.Quoted
import ResponsiveImage.Text.Split
import ResponsiveImage.Text.Unprintable
import ResponsiveImage.Toml.Datetime
import ResponsiveImage.Toml.Reading
import ResponsiveImage.Toml.Scalar
import ResponsiveImage.Toml.Tree
import ResponsiveImage.Toml.Value
import ResponsiveImage.Widths.Estimate
import ResponsiveImage.Widths.ImageError
import ResponsiveImage.Widths.Steps
import ResponsiveImage.Widths.Target
import ResponsiveImage.Widths.Variants
