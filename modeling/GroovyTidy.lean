import GroovyTidy.Text.CodePoint
import GroovyTidy.Text.Cursor
import GroovyTidy.Text.Lines
import GroovyTidy.Text.LowerCase
import GroovyTidy.Text.Quoted
import GroovyTidy.Text.Width
import GroovyTidy.Token.Basic
import GroovyTidy.Token.Source
import GroovyTidy.Tree.Parse
import GroovyTidy.Tree.Json
import GroovyTidy.Tree.Diagram
import GroovyTidy.Doc.Printer
import GroovyTidy.Doc.Layout
import GroovyTidy.Format.Registry
import GroovyTidy.Format.Stage
import GroovyTidy.Decimal.Shortest
import GroovyTidy.Toml.Document
import GroovyTidy.Settings.Layers
import GroovyTidy.Ignore.Walk
import GroovyTidy.Command.Run
import GroovyTidy.Main
import GroovyTidy.Proofs.Tree.Production
import GroovyTidy.Proofs.Tree.Yield
import GroovyTidy.Proofs.Tree.Lookahead
import GroovyTidy.Proofs.Tree.Types
import GroovyTidy.Proofs.Tree.Conform
import GroovyTidy.Proofs.Tree.Coverage
import GroovyTidy.Proofs.Tree.Grammatical
import GroovyTidy.Proofs.Token.Cut
import GroovyTidy.Proofs.Token.Lexeme
import GroovyTidy.Proofs.Token.Gap
import GroovyTidy.Proofs.Token.Spelling
import GroovyTidy.Proofs.Token.Tiling
import GroovyTidy.Proofs.Doc.Rigid
import GroovyTidy.Proofs.Format.Script
import GroovyTidy.Proofs.Format.Outline
import GroovyTidy.Proofs.Format.Portions
import GroovyTidy.Proofs.Tree.Decided
import GroovyTidy.Proofs.Format.Written
import GroovyTidy.Proofs.Format.Lossless
import GroovyTidy.Proofs.Tree.Reads
import GroovyTidy.Proofs.Format.Reread
import GroovyTidy.Proofs.Format.Stable
import GroovyTidy.Proofs.Tree.Lockstep
import GroovyTidy.Proofs.Tree.Alike
import GroovyTidy.Proofs.Tree.Stripped
import GroovyTidy.Proofs.Tree.Twins
import GroovyTidy.Proofs.Tree.TwinGrammar
import GroovyTidy.Proofs.Format.Layout
import GroovyTidy.Proofs.Tree.Complete
import GroovyTidy.Proofs.Tree.Nesting
import GroovyTidy.Proofs.Tree.Extends
import GroovyTidy.Proofs.Tree.ExtendGrammar
import GroovyTidy.Proofs.Tree.Joined
import GroovyTidy.Proofs.Token.Joined
import GroovyTidy.Proofs.Format.Joined
import GroovyTidy.Proofs.Text.Slices
import GroovyTidy.Proofs.Token.LiteralUnits
import GroovyTidy.Proofs.Token.Bytes
import GroovyTidy.Proofs.Tree.TokenVector
import GroovyTidy.Proofs.Format.Total
import GroovyTidy.Proofs.Text.Utf8
import GroovyTidy.Proofs.FileTree
import GroovyTidy.Proofs.Command.Files
import GroovyTidy.Proofs.Format.Commands
import GroovyTidy.Proofs.Token.Truncated
import GroovyTidy.Proofs.Tree.Refusal
import GroovyTidy.Proofs.Command.Check
import GroovyTidy.Proofs.Doc.Verbatim
import GroovyTidy.Proofs.Token.LiteralGrammar
import GroovyTidy.Proofs.Tree.Commitment
import GroovyTidy.Proofs.Tree.Gate
import GroovyTidy.Proofs.Tree.Trailer
import GroovyTidy.Proofs.Doc.Fitting
import GroovyTidy.Proofs.Doc.Empty
import GroovyTidy.Proofs.Text.Positions
import GroovyTidy.Proofs.Token.ByteOrderMark
import GroovyTidy.Proofs.Token.Returns
import GroovyTidy.Proofs.Token.Respacing
import GroovyTidy.Proofs.Token.LineEnds
import GroovyTidy.Proofs.Text.Excerpt
import GroovyTidy.Proofs.Tree.Places
import GroovyTidy.Proofs.Tree.Text
import GroovyTidy.Proofs.Text.Rows
import GroovyTidy.Proofs.Tree.Marked
import GroovyTidy.Proofs.Format.Registry
import GroovyTidy.Proofs.Json
import GroovyTidy.Proofs.Tree.Diagram
import GroovyTidy.Proofs.Tree.Json
import GroovyTidy.Proofs.Text.Units
import GroovyTidy.Proofs.Tree.Scan
import GroovyTidy.Proofs.Tree.Depth
import GroovyTidy.Proofs.Tree.Progress
import GroovyTidy.Proofs.Settings.Overlay
import GroovyTidy.Proofs.Settings.Precedence
import GroovyTidy.Proofs.Command.Widths
