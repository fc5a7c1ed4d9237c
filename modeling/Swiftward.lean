import Swiftward.Unicode.Class
import Swiftward.Unicode.Case
import Swiftward.Text.Symbol
import Swiftward.Text.Trim
import Swiftward.Text.Quoting
import Swiftward.Text.Offset
import Swiftward.Text.Literal
import Swiftward.Text.Comment
import Swiftward.Text.Paren
import Swiftward.Text.Bracket
import Swiftward.Text.Token
import Swiftward.Text.Label
import Swiftward.Text.Lines
import Swiftward.MessageSend.Basic
import Swiftward.MessageSend.Fragment
import Swiftward.MessageSend.Collapse
import Swiftward.Text.Reading
import Swiftward.SwiftType
import Swiftward.Declaration.Import
import Swiftward.Declaration.ClassHeader
import Swiftward.Declaration.Field
import Swiftward.Declaration.Method
import Swiftward.Statement.Substitution
import Swiftward.Statement.Terminator
import Swiftward.Statement.Conditional
import Swiftward.Statement.Delegation
import Swiftward.Statement.LocalDeclaration
import Swiftward.Conversion.LineSource
import Swiftward.Conversion.Construct
import Swiftward.Conversion.Rules
import Swiftward.Conversion.Block
import Swiftward.Conversion.Stream
import Swiftward.File.Path
import Swiftward.File.Target
import Swiftward.File.FileSystem
import Swiftward.File.Directory
import Swiftward.File.Wildcard.Pattern
import Swiftward.File.Wildcard.Search
import Swiftward.File.Conversion
import Swiftward.Report
import Swiftward.CommandLine.Options
import Swiftward.CommandLine.Run
import Swiftward.Main
import Swiftward.Proofs.Text.Closed
import Swiftward.Proofs.Text.Trim
import Swiftward.Proofs.Text.Token
import Swiftward.Proofs.Text.Literal
import Swiftward.Proofs.Text.Rewording
import Swiftward.Proofs.Text.Paren
import Swiftward.Proofs.MessageSend.Meaning
import Swiftward.Proofs.MessageSend.Pass
import Swiftward.Proofs.MessageSend.Outline
import Swiftward.Proofs.MessageSend.Resolve
import Swiftward.Proofs.MessageSend.Expression
import Swiftward.Proofs.MessageSend.Rewording
import Swiftward.Proofs.MessageSend.Literal
import Swiftward.Proofs.MessageSend.Spelling
import Swiftward.Proofs.MessageSend.Renaming
import Swiftward.Proofs.MessageSend.Piece
import Swiftward.Proofs.MessageSend.Balance
import Swiftward.Proofs.MessageSend.Paren
import Swiftward.Proofs.MessageSend.Progress
import Swiftward.Proofs.MessageSend.Mark
import Swiftward.Proofs.MessageSend.Written
import Swiftward.Proofs.Conversion.Reading
import Swiftward.Proofs.Conversion.Derivation
import Swiftward.Proofs.Conversion.Consumption
import Swiftward.Proofs.Conversion.Scan
import Swiftward.Proofs.Conversion.Nesting.Tree
import Swiftward.Proofs.Conversion.Nesting.Sound
import Swiftward.Proofs.Conversion.Nesting.Unsound
import Swiftward.Proofs.Statement.Rewording
import Swiftward.Proofs.Statement.OpenHeader
import Swiftward.Proofs.Statement.Substitution
import Swiftward.Proofs.Statement.Literal
import Swiftward.Proofs.Statement.Indentation
import Swiftward.Proofs.Conversion.Upcoming
import Swiftward.Proofs.Conversion.Simulation
import Swiftward.Proofs.Text.Comment
import Swiftward.Proofs.Conversion.Comment
import Swiftward.Proofs.Conversion.Restart
import Swiftward.Proofs.Conversion.Stream
import Swiftward.Proofs.Conversion.Numbering
import Swiftward.Proofs.Conversion.Delivery
import Swiftward.Proofs.Conversion.Interface
import Swiftward.Proofs.Conversion.Guard
import Swiftward.Proofs.Conversion.GuardEnd
import Swiftward.Proofs.Conversion.Nesting
import Swiftward.Proofs.Text.Lines
import Swiftward.Proofs.CommandLine.Input
import Swiftward.Proofs.File.Search
import Swiftward.Proofs.CommandLine.Run
import Swiftward.Proofs.Declaration.Method
import Swiftward.Proofs.Declaration.Signature
import Swiftward.Proofs.Declaration.Alignment
import Swiftward.Proofs.File.Directory
import Swiftward.Proofs.CommandLine.Write
import Swiftward.Proofs.File.Target
import Swiftward.Proofs.CommandLine.Effect
import Swiftward.Proofs.CommandLine.Isolation
import Swiftward.Proofs.Conversion.Lookahead
import Swiftward.Proofs.Conversion.Account
import Swiftward.Proofs.Conversion.LineCount
import Swiftward.Proofs.MessageSend.Keyword
import Swiftward.Proofs.MessageSend.Call
import Swiftward.Proofs.Text.Brace
import Swiftward.Proofs.MessageSend.Brace
import Swiftward.Proofs.Statement.Brace
import Swiftward.Proofs.Conversion.Brace
import Swiftward.Proofs.Declaration.Spelling
import Swiftward.Proofs.Declaration.Layout
import Swiftward.Proofs.Conversion.Header
import Swiftward.Proofs.Report.Json
import Swiftward.Proofs.Report.Reading
import Swiftward.Proofs.Text.LineFeed
import Swiftward.Proofs.MessageSend.LineFeed
import Swiftward.Proofs.Statement.LineFeed
import Swiftward.Proofs.Declaration.LineFeed
import Swiftward.Proofs.Conversion.LineFeed
import Swiftward.Proofs.Report.LineCount
import Swiftward.Proofs.Conversion.Conditional
import Swiftward.Proofs.Conversion.Braceless
import Swiftward.Proofs.Conversion.SplitHeader
import Swiftward.Proofs.Conversion.Reattachment
import Swiftward.Proofs.Statement.Header
import Swiftward.Proofs.MessageSend.Spacing
import Swiftward.Proofs.Statement.CollapsedHeader
import Swiftward.Proofs.Statement.Expression
import Swiftward.Proofs.Conversion.Delegation
import Swiftward.Proofs.File.Clash
import Swiftward.Proofs.Text.WordRule
import Swiftward.Proofs.Statement.Simultaneous
import Swiftward.Proofs.Declaration.Field
import Swiftward.Proofs.Declaration.Pointer
import Swiftward.Proofs.Conversion.Fields
import Swiftward.Proofs.Text.LiteralSpan
import Swiftward.Proofs.Text.TrailingComment
import Swiftward.Proofs.Text.Bracket
import Swiftward.Proofs.Conversion.Import
import Swiftward.Proofs.Conversion.LocalDeclaration
