import Marginalia.Docstring
import Marginalia.Notes.OfTokens
import Marginalia.Rewrite

/-!
# Analysis of a source

The commentary of a source is found in two readings, each of which may fail on its own. The
tokens, or else the physical lines, give the notes; the docstrings, if a parser makes a syntax tree
of the source, are laid over them. So every source has an analysis, and it remembers which readings
it rests on.
-/

namespace Marginalia

/-- Which readings of a source succeeded. -/
structure Reading where
  /-- Whether the source was cut into tokens, and not only into lines. -/
  tokens : Bool
  /-- Whether the docstrings of the source are known. -/
  grammar : Bool
  deriving DecidableEq, Repr

namespace Reading

/-- How the reading is shown. -/
def label (r : Reading) : Text :=
  (if r.tokens then "tokens" else "lines").toList ++
    (if r.grammar then "+syntax-tree" else "").toList

/-- How the reading is named in records. -/
def key (r : Reading) : Text :=
  (if r.tokens then "tokens" else "lines").toList ++
    (if r.grammar then "_with_syntax_tree" else "").toList

end Reading

/-- What is known of the commentary of a source. -/
structure Analysis where
  notes : Notes
  statistics : Statistics
  reading : Reading

/-- The notes of a source before its docstrings are laid over them, and whether they come from
tokens. -/
def baseNotes (source : Text) : Notes × Bool :=
  match tokenize source with
  | .ok tokens => (Notes.ofTokens tokens, true)
  | .error _ => (Notes.ofLines source, false)

/-- The analysis of a source. -/
def analyze (parse : Parser) (source : Text) : Analysis :=
  let (base, byTokens) := baseNotes source
  let (notes, byGrammar) :=
    match docstrings parse source with
    | .ok spans => (base.withDocstrings spans, true)
    | .error _ => (base, false)
  ⟨notes, Statistics.compute notes source, ⟨byTokens, byGrammar⟩⟩

/-- The source without its commentary. A comment that was found by lines only is cut off only if
the quotes before it agree. -/
def strip (parse : Parser) (source : Text) : Rewrite :=
  let a := analyze parse source
  rewrite source a.notes (!a.reading.tokens)

end Marginalia
