import Marginalia.Notes
import Marginalia.Standalone

/-!
# Notes from tokens

The notes that the token sequence of a source gives: one for every comment, and one for every
line of every standalone string literal. A later note takes the place of an earlier one, so a
line with the end of a literal and a comment belongs to the literal. Docstrings, which are known
from elsewhere, are laid over the notes afterwards.
-/

namespace Marginalia

/-- The note of a comment token. -/
def Token.commentNote (t : Token) : Nat × Note :=
  (t.start.line, ⟨t.text, .comment, t.start.column, none⟩)

/-- The tokens that are comments. -/
def commentTokens (tokens : List Token) : List Token :=
  tokens.filter (·.kind == .comment)

namespace Notes

/-- The notes that a token sequence gives. -/
def ofTokens (tokens : List Token) : Notes :=
  (empty.insertAll ((commentTokens tokens).map Token.commentNote)).insertAll
    ((standaloneStrings tokens).flatMap (Literal.notes .standaloneString))

/-- The notes with those of the docstrings `spans` in place of what was on their lines. -/
def withDocstrings (ns : Notes) (spans : List Literal) : Notes :=
  ns.insertAll (spans.flatMap (Literal.notes .docstring))

end Notes

end Marginalia
