import CircuitDesk.Batch.Result
import CircuitDesk.Batch.Run
import CircuitDesk.Binary64
import CircuitDesk.Binary64.Shortest
import CircuitDesk.Bytes
import CircuitDesk.Bytes.Case
import CircuitDesk.Bytes.Chars
import CircuitDesk.Bytes.Printable
import CircuitDesk.Bytes.Quoted
import CircuitDesk.Circuit
import CircuitDesk.CodePoints
import CircuitDesk.CommandLine
import CircuitDesk.CommandLine.Command
import CircuitDesk.CommandLine.Flag
import CircuitDesk.CommandLine.Help
import CircuitDesk.CommandLine.Script.Bash
import CircuitDesk.CommandLine.Script.Fish
import CircuitDesk.CommandLine.Script.Powershell
import CircuitDesk.CommandLine.Script.Zsh
import CircuitDesk.CommandLine.Suggestion
import CircuitDesk.Decimal
import CircuitDesk.Display
import CircuitDesk.Display.Box
import CircuitDesk.Display.Cluster
import CircuitDesk.Display.Cluster.Tables
import CircuitDesk.Display.Escape
import CircuitDesk.Display.Grid
import CircuitDesk.Display.Wrap
import CircuitDesk.Drawing
import CircuitDesk.Drawing.Cell
import CircuitDesk.Duration
import CircuitDesk.Editor
import CircuitDesk.Editor.Command
import CircuitDesk.Editor.SoftWrap
import CircuitDesk.Editor.Words
import CircuitDesk.Files
import CircuitDesk.Gate
import CircuitDesk.Json
import CircuitDesk.Main
import CircuitDesk.Numeral
import CircuitDesk.Operation
import CircuitDesk.Palette
import CircuitDesk.Position
import CircuitDesk.Program
import CircuitDesk.Program.Json
import CircuitDesk.Program.OfTree
import CircuitDesk.Program.Report
import CircuitDesk.Program.Text
import CircuitDesk.Proofs.CallSites
import CircuitDesk.Proofs.Checks
import CircuitDesk.Proofs.Grammar
import CircuitDesk.Proofs.Grammar.Leaves
import CircuitDesk.Proofs.Grammar.Programs
import CircuitDesk.Proofs.Grammar.Statements
import CircuitDesk.Proofs.Lexemes
import CircuitDesk.Proofs.Lookup
import CircuitDesk.Proofs.Numerals
import CircuitDesk.Proofs.Phrase
import CircuitDesk.Proofs.Phrase.Choice
import CircuitDesk.Proofs.Phrase.Lines
import CircuitDesk.Proofs.Phrase.Separated
import CircuitDesk.Proofs.Recognition
import CircuitDesk.Proofs.Representable
import CircuitDesk.Proofs.RoundTrip
import CircuitDesk.Proofs.Rounding
import CircuitDesk.Proofs.Spelling
import CircuitDesk.Proofs.Spelling.Cut
import CircuitDesk.Proofs.Spelling.Meaning
import CircuitDesk.Proofs.Timesteps
import CircuitDesk.Proofs.Values
import CircuitDesk.Proofs.Written
import CircuitDesk.Rule
import CircuitDesk.Schedule
import CircuitDesk.SemanticFault
import CircuitDesk.Settings
import CircuitDesk.Source
import CircuitDesk.Statistics
import CircuitDesk.Table
import CircuitDesk.Timestep
import CircuitDesk.Token
import CircuitDesk.Token.Lexer
import CircuitDesk.Tree
import CircuitDesk.Tree.Grammar
import CircuitDesk.Tree.Reading
import CircuitDesk.Viewer
import CircuitDesk.Viewer.View
import CircuitDesk.Yaml.Base64
import CircuitDesk.Yaml.Cursor
import CircuitDesk.Yaml.Expansion
import CircuitDesk.Yaml.Fault
import CircuitDesk.Yaml.Node
import CircuitDesk.Yaml.Node.OfTokens
import CircuitDesk.Yaml.Timestamp
import CircuitDesk.Yaml.Token
import CircuitDesk.Yaml.Token.Queue
import CircuitDesk.Yaml.Token.Scalar
import CircuitDesk.Yaml.Token.Tag
import CircuitDesk.Yaml.Value
import CircuitDesk.Proofs.Recursion
import CircuitDesk.Proofs.Overflow
import CircuitDesk.Proofs.Defects
import CircuitDesk.Proofs.Finding
import CircuitDesk.Proofs.Finding.Rules
import CircuitDesk.Proofs.Built
import CircuitDesk.Proofs.CallNodes
import CircuitDesk.Proofs.Positions
import CircuitDesk.Proofs.Sites
import CircuitDesk.Proofs.Occurrences
import CircuitDesk.Proofs.Acceptance
import CircuitDesk.Proofs.FaultPlaces
import CircuitDesk.Proofs.Rows
import CircuitDesk.Proofs.Frontier
import CircuitDesk.Proofs.Painting
import CircuitDesk.Proofs.Schedule
import CircuitDesk.Proofs.Wires
import CircuitDesk.Proofs.Exchange
import CircuitDesk.Proofs.Messages
import CircuitDesk.Proofs.Selection
import CircuitDesk.Token.Pattern
import CircuitDesk.Proofs.Patterns
import CircuitDesk.Proofs.Lossless
import CircuitDesk.Proofs.Moves
import CircuitDesk.Proofs.Outcomes
import CircuitDesk.Proofs.Completion
import CircuitDesk.Proofs.Slots
import CircuitDesk.Proofs.Glyphs
import CircuitDesk.Proofs.Strings
import CircuitDesk.Proofs.Holdable
import CircuitDesk.Proofs.Session
import CircuitDesk.Proofs.Layout
import CircuitDesk.Proofs.Accounting
import CircuitDesk.Proofs.Cells
import CircuitDesk.Proofs.Rectangle
import CircuitDesk.Proofs.Tallies
import CircuitDesk.Proofs.Clipping
import CircuitDesk.Proofs.Colours
import CircuitDesk.Proofs.Denotation
import CircuitDesk.Proofs.Balance
import CircuitDesk.Proofs.LineBreaks
import CircuitDesk.Proofs.Recheck
import CircuitDesk.Proofs.Durations
import CircuitDesk.Proofs.Files
import CircuitDesk.Proofs.Yaml.Words
import CircuitDesk.Proofs.Yaml.Scanning
import CircuitDesk.Proofs.Yaml.Entries
import CircuitDesk.Proofs.Yaml.Mappings
import CircuitDesk.Proofs.Yaml.Values
import CircuitDesk.Proofs.SavedSettings
import CircuitDesk.Proofs.TokenTexts
import CircuitDesk.Proofs.Shapes
import CircuitDesk.Proofs.Placed
import CircuitDesk.Proofs.Readable
import CircuitDesk.Proofs.Printed
import CircuitDesk.Proofs.Columns
import CircuitDesk.Proofs.Overlaid
