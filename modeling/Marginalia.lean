import Marginalia.Main
import Marginalia.Proofs.Position
import Marginalia.Proofs.Rewrite.Lines
import Marginalia.Proofs.Text.Lines
import Marginalia.Proofs.Text.Trim
import Marginalia.Proofs.Text.Utf8
import Marginalia.Proofs.FileTree.Place
import Marginalia.Proofs.FileTree.Access
import Marginalia.Proofs.Backup
import Marginalia.Proofs.FileTree.Commentary
import Marginalia.Proofs.Token.Piece
import Marginalia.Proofs.Token.Tiling
import Marginalia.Proofs.Token.Cover
import Marginalia.Proofs.Literal
import Marginalia.Proofs.Rewrite.Removal
import Marginalia.Proofs.Notes
import Marginalia.Proofs.Notes.OfLines
import Marginalia.Proofs.Notes.Places
import Marginalia.Proofs.Rewrite.Code
import Marginalia.Proofs.Rewrite.Literals
import Marginalia.Proofs.Strip
import Marginalia.Proofs.SyntaxTree
import Marginalia.Proofs.Docstring
import Marginalia.Proofs.Rewrite.Rows
import Marginalia.Proofs.ByteOrderMark
import Marginalia.Proofs.LineBreaks
import Marginalia.Proofs.FileTree.Neighbours
import Marginalia.Proofs.SourceName
import Marginalia.Proofs.FileTree.Footprint
import Marginalia.Proofs.Discovery
import Marginalia.Proofs.FileTree.Walk
import Marginalia.Proofs.FileTree.Batch
import Marginalia.Proofs.Token.Acceptance
import Marginalia.Proofs.Token.Cut
import Marginalia.Proofs.Token.LineStarts
import Marginalia.Proofs.Rewrite.Thinned
import Marginalia.Proofs.Rewrite.Pieces
import Marginalia.Proofs.Rewrite.Indentation
import Marginalia.Proofs.Token.Append
import Marginalia.Proofs.Token.Delimiter
import Marginalia.Proofs.FileTree.Versions
import Marginalia.Proofs.Rewrite.Comments
import Marginalia.Proofs.Notes.QuoteCount
import Marginalia.Proofs.Standalone
import Marginalia.Proofs.Standalone.Without
import Marginalia.Proofs.Standalone.Selection
import Marginalia.Proofs.Rewrite.Emptied
import Marginalia.Proofs.Notes.Precedence
import Marginalia.Proofs.Token.Lookahead
import Marginalia.Proofs.Token.DefiniteError
import Marginalia.Proofs.Text.Offsets
import Marginalia.Proofs.SyntaxTree.Literals
import Marginalia.Proofs.Docstring.Row
import Marginalia.Proofs.Docstring.Measure
import Marginalia.Proofs.Notes.Blocks
import Marginalia.Proofs.Path
import Marginalia.Proofs.Discovery.Eligible
import Marginalia.Proofs.Report.Table
import Marginalia.Proofs.Token.Visible
import Marginalia.Proofs.Rewrite.Tokens
import Marginalia.Proofs.Strip.Twice
