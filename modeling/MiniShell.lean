import MiniShell.Catalog.Entry
import MiniShell.Catalog.Manual
import MiniShell.Catalog.Program
import MiniShell.Command.Copying
import MiniShell.Command.Counting
import MiniShell.Command.Cutting
import MiniShell.Command.Directories
import MiniShell.Command.Display
import MiniShell.Command.Finding
import MiniShell.Command.Matching
import MiniShell.Command.Ordering
import MiniShell.Command.Reading
import MiniShell.Fault
import MiniShell.FileTree.Basic
import MiniShell.FileTree.Lookup
import MiniShell.FileTree.Path
import MiniShell.Grammar.Guard
import MiniShell.Grammar.Lookahead
import MiniShell.Grammar.Place
import MiniShell.Grammar.Recogniser
import MiniShell.Grammar.Report
import MiniShell.Grammar.Tree
import MiniShell.Main
import MiniShell.Pattern.Character
import MiniShell.Pattern.Cursor
import MiniShell.Pattern.Escape
import MiniShell.Pattern.Expression
import MiniShell.Pattern.Flaw
import MiniShell.Pattern.Item
import MiniShell.Pattern.Match
import MiniShell.Pattern.Opening
import MiniShell.Pattern.Replacement
import MiniShell.Session.Basic
import MiniShell.Session.Files
import MiniShell.Session.Input
import MiniShell.Shell.Call
import MiniShell.Shell.Conversation
import MiniShell.Shell.Evaluator
import MiniShell.Shell.Word
import MiniShell.Text.Alphanumeric
import MiniShell.Text.Basic
import MiniShell.Text.Boundary
import MiniShell.Text.CaseFold
import MiniShell.Text.Decimal
import MiniShell.Text.Identifier
import MiniShell.Text.Letter
import MiniShell.Text.Lower
import MiniShell.Text.Numeral
import MiniShell.Text.Printable
import MiniShell.Text.Quoted
import MiniShell.Text.Space
import MiniShell.Text.Utf8
import MiniShell.Token.Basic
import MiniShell.Token.Lexer
import MiniShell.Wildcard.Basic
import MiniShell.Wildcard.Expansion
import MiniShell.Proofs.CutParts
import MiniShell.Proofs.PathWays
import MiniShell.Proofs.PathEnds
import MiniShell.Proofs.Running
import MiniShell.Proofs.Derivation
import MiniShell.Proofs.Lookahead
import MiniShell.Proofs.Language
import MiniShell.Proofs.Forecast
import MiniShell.Proofs.Passage
import MiniShell.Proofs.Soundness
import MiniShell.Proofs.Settling
import MiniShell.Proofs.TokenAccount
import MiniShell.Proofs.CallShape
import MiniShell.Proofs.Completeness
import MiniShell.Proofs.Recovery
import MiniShell.Proofs.Acceptance
import MiniShell.Proofs.Severed
import MiniShell.Proofs.Series
import MiniShell.Proofs.Lexing
import MiniShell.Proofs.Script
import MiniShell.Proofs.Rendering
import MiniShell.Proofs.FileUpdate
import MiniShell.Proofs.Meaning
import MiniShell.Proofs.Frame
import MiniShell.Proofs.Sequence
import MiniShell.Proofs.Mending
import MiniShell.Proofs.Encoding
import MiniShell.Proofs.Filter
import MiniShell.Proofs.TemporaryFile
import MiniShell.Proofs.TokenLanguage
import MiniShell.Proofs.Tiling
import MiniShell.Proofs.Coverage
import MiniShell.Proofs.ArgumentRow
import MiniShell.Proofs.QuotedWords
import MiniShell.Proofs.Quoting
import MiniShell.Proofs.Stepwise
import MiniShell.Proofs.Composition
import MiniShell.Proofs.StandardInput
import MiniShell.Proofs.PipeIsolation
import MiniShell.Proofs.InputReturn
import MiniShell.Proofs.CallRecord
import MiniShell.Proofs.BlankRuns
import MiniShell.Proofs.BlankBlindness
import MiniShell.Proofs.RedirectedLine
import MiniShell.Proofs.CallLine
import MiniShell.Proofs.NamedInput
import MiniShell.Proofs.Perils
import MiniShell.Proofs.Survival
import MiniShell.Proofs.Splicing
import MiniShell.Proofs.Interpolation
import MiniShell.Proofs.Globbing
import MiniShell.Proofs.Guarding
import MiniShell.Proofs.RangeUnion
import MiniShell.Proofs.InPlace
import MiniShell.Proofs.Grafting
import MiniShell.Proofs.Overwriting
import MiniShell.Proofs.Descent
import MiniShell.Proofs.Moving
import MiniShell.Proofs.Searching
import MiniShell.Proofs.Walking
import MiniShell.Proofs.TreeRemoval
import MiniShell.Proofs.TreeCopy
import MiniShell.Proofs.TextOrder
import MiniShell.Proofs.Undoing
import MiniShell.Proofs.FailedMoves
import MiniShell.Proofs.FileCopy
import MiniShell.Proofs.SortedFile
import MiniShell.Proofs.LineOrder
import MiniShell.Proofs.DistinctLines
import MiniShell.Proofs.LineWindow
import MiniShell.Proofs.MarkedLines
import MiniShell.Proofs.LongestRuns
import MiniShell.Proofs.LineContents
import MiniShell.Proofs.Repetitions
import MiniShell.Proofs.Tallying
import MiniShell.Proofs.CutColumns
import MiniShell.Proofs.Nesting
