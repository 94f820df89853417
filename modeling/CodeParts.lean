import CodeParts.CommandLine.Files
import CodeParts.CommandLine.Invocation
import CodeParts.CommandLine.Log
import CodeParts.CommandLine.Options
import CodeParts.CommandLine.Readings
import CodeParts.CommandLine.Run
import CodeParts.CommandLine.Trace
import CodeParts.CommandLine.Word
import CodeParts.Construct
import CodeParts.Construct.Braced
import CodeParts.Construct.Extract
import CodeParts.Construct.Indented
import CodeParts.Construct.Room
import CodeParts.Construct.Signature
import CodeParts.Decimal.Layout
import CodeParts.Decimal.Read
import CodeParts.Decimal.Shortest
import CodeParts.Dialect
import CodeParts.Digest.Sha256
import CodeParts.Digits
import CodeParts.Grep
import CodeParts.Json
import CodeParts.Json.Read
import CodeParts.Lexer
import CodeParts.Lexer.Scan
import CodeParts.Main
import CodeParts.Names.Identifiers
import CodeParts.Names.Index
import CodeParts.Names.Tally
import CodeParts.Path
import CodeParts.Pattern
import CodeParts.Pattern.Search
import CodeParts.Pattern.Start
import CodeParts.Report
import CodeParts.Report.Fields
import CodeParts.Search.Interval
import CodeParts.Search.PrefixTable
import CodeParts.Search.Ranges
import CodeParts.Search.Sorted
import CodeParts.Session
import CodeParts.Settings
import CodeParts.Settings.Error
import CodeParts.Settings.Read
import CodeParts.Source
import CodeParts.Split.Boundary
import CodeParts.Split.Part
import CodeParts.Split.Policy
import CodeParts.Split.Stats
import CodeParts.Text.Blank
import CodeParts.Text.Line
import CodeParts.Text.Terminal
import CodeParts.Text.Visible
import CodeParts.Text.WordChar
import CodeParts.Toml.DateTable
import CodeParts.Toml.Read
import CodeParts.Toml.Scalar
import CodeParts.Toml.Table
import CodeParts.Toml.Text
import CodeParts.Proofs.Source.Lines
import CodeParts.Proofs.Source.LineSpans
import CodeParts.Proofs.Source.LineTable
import CodeParts.Proofs.Source.Window
import CodeParts.Proofs.Lexer.ClampedDepth
import CodeParts.Proofs.Lexer.Compose
import CodeParts.Proofs.Lexer.Depth
import CodeParts.Proofs.Lexer.Lexeme
import CodeParts.Proofs.Lexer.LineEnds
import CodeParts.Proofs.Lexer.Steps
import CodeParts.Proofs.Lexer.Strides
import CodeParts.Proofs.Lexer.Word
import CodeParts.Proofs.Pattern.Ends
import CodeParts.Proofs.Pattern.Lines
import CodeParts.Proofs.Pattern.Match
import CodeParts.Proofs.Pattern.Reading
import CodeParts.Proofs.Pattern.Takes
import CodeParts.Proofs.Pattern.Window
import CodeParts.Proofs.Construct.Arrow
import CodeParts.Proofs.Construct.Braces
import CodeParts.Proofs.Construct.Closing
import CodeParts.Proofs.Construct.Declaration
import CodeParts.Proofs.Construct.Laminar
import CodeParts.Proofs.Construct.Prefix
import CodeParts.Proofs.Construct.Signature
import CodeParts.Proofs.Construct.Span
import CodeParts.Proofs.Construct.Spelling
import CodeParts.Proofs.Construct.Window
import CodeParts.Proofs.Split.Append
import CodeParts.Proofs.Split.Depth
import CodeParts.Proofs.Split.DepthZero
import CodeParts.Proofs.Split.EdgeLines
import CodeParts.Proofs.Split.Extract
import CodeParts.Proofs.Split.Limits
import CodeParts.Proofs.Split.Numbering
import CodeParts.Proofs.Split.Overshoot
import CodeParts.Proofs.Split.Phases
import CodeParts.Proofs.Split.Progress
import CodeParts.Proofs.Split.Resplit
import CodeParts.Proofs.Split.Run
import CodeParts.Proofs.Split.Snapping
import CodeParts.Proofs.Split.Strategies
import CodeParts.Proofs.Split.Suffix
import CodeParts.Proofs.Split.Tiling
import CodeParts.Proofs.Split.Window
import CodeParts.Proofs.Grep.Bytes
import CodeParts.Proofs.Grep.Hits
import CodeParts.Proofs.Grep.Parts
import CodeParts.Proofs.Grep.Windows
import CodeParts.Proofs.Names.Arguments
import CodeParts.Proofs.Names.Calls
import CodeParts.Proofs.Names.Declared
import CodeParts.Proofs.Names.Located
import CodeParts.Proofs.Names.Lookup
import CodeParts.Proofs.Names.Order
import CodeParts.Proofs.Names.Parts
import CodeParts.Proofs.Names.Ranking
import CodeParts.Proofs.Names.Tally
import CodeParts.Proofs.Names.Words
import CodeParts.Proofs.Digits
import CodeParts.Proofs.Session
import CodeParts.Proofs.Text.Lines
import CodeParts.Proofs.Report
import CodeParts.Proofs.Json.Numbers
import CodeParts.Proofs.Json.RoundTrip
import CodeParts.Proofs.Settings.Fields
import CodeParts.Proofs.Settings.Fieldwise
import CodeParts.Proofs.CommandLine.Words
import CodeParts.Proofs.CommandLine.ValueFlag
import CodeParts.Proofs.CommandLine.Overlay
