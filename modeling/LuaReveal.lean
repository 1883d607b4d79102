import LuaReveal.Calendar
import LuaReveal.CommandLine.Command
import LuaReveal.CommandLine.Item
import LuaReveal.CommandLine.Program
import LuaReveal.Commentary
import LuaReveal.Escape.Mnemonic
import LuaReveal.Escape.Octal
import LuaReveal.Escape.Policy
import LuaReveal.Event
import LuaReveal.Failure
import LuaReveal.FileJob
import LuaReveal.Keyword
import LuaReveal.Layout.LineBuffer
import LuaReveal.Layout.Reindent
import LuaReveal.Literal
import LuaReveal.Naming.Alias
import LuaReveal.Naming.AliasMap
import LuaReveal.Naming.Renaming
import LuaReveal.Outcome
import LuaReveal.Path
import LuaReveal.Report
import LuaReveal.Session
import LuaReveal.Settings
import LuaReveal.Signature
import LuaReveal.Statistics
import LuaReveal.Storage.Basic
import LuaReveal.Storage.FileSystem
import LuaReveal.StringTable.Basic
import LuaReveal.StringTable.Declaration
import LuaReveal.StringTable.Reference
import LuaReveal.Text.Basic
import LuaReveal.Text.Blank
import LuaReveal.Text.Column
import LuaReveal.Text.Control
import LuaReveal.Text.Decimal
import LuaReveal.Text.Lines
import LuaReveal.Text.Scan
import LuaReveal.Text.Utf8
import LuaReveal.Text.Word
import LuaReveal.Text.WordRanges
import LuaReveal.Main
import LuaReveal.Proofs.Escape.Reading
import LuaReveal.Proofs.Escape.Repetition
import LuaReveal.Proofs.Escape.Resolution
import LuaReveal.Proofs.Literal.Body
import LuaReveal.Proofs.Literal.Structure
import LuaReveal.Proofs.StringTable.Entry
import LuaReveal.Proofs.StringTable.Opening
import LuaReveal.Proofs.StringTable.Written
import LuaReveal.Proofs.StringTable.Inlining
import LuaReveal.Proofs.Naming.Positions
import LuaReveal.Proofs.Naming.Choice
import LuaReveal.Proofs.Naming.Substitution
import LuaReveal.Proofs.Naming.Declared
import LuaReveal.Proofs.Naming.OnePass
import LuaReveal.Proofs.Naming.Requests
import LuaReveal.Proofs.Text.Words
import LuaReveal.Proofs.Text.Identifier
import LuaReveal.Proofs.Text.Decimal
import LuaReveal.Proofs.Naming.Recovery
import LuaReveal.Proofs.Naming.Settled
import LuaReveal.Proofs.Literal.Conversion
import LuaReveal.Proofs.Literal.Standing
import LuaReveal.Proofs.Literal.Units
import LuaReveal.Proofs.Literal.Meaning
import LuaReveal.Proofs.Naming.Standing
import LuaReveal.Proofs.Session.Reuse
import LuaReveal.Proofs.Session.TableName
import LuaReveal.Proofs.Text.Utf8
import LuaReveal.Proofs.Storage.Laws
import LuaReveal.Proofs.FileJob.Effects
import LuaReveal.Proofs.Text.Lines
import LuaReveal.Proofs.Layout.CodeLines
import LuaReveal.Proofs.Layout.Placing
import LuaReveal.Proofs.Layout.Indented
import LuaReveal.Proofs.Layout.Blocks
import LuaReveal.Proofs.Signature.Names
import LuaReveal.Proofs.Commentary.Additive
import LuaReveal.Proofs.Commentary.Functions
import LuaReveal.Proofs.Layout.Depth
import LuaReveal.Proofs.Statistics.Escapes
import LuaReveal.Proofs.Statistics.Lines
import LuaReveal.Proofs.Path.Sibling
import LuaReveal.Proofs.Naming.Search
import LuaReveal.Proofs.Report.Lines
