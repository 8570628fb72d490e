import Marginalia.CommandLine.Run
import Marginalia.FileTree.Walk
import Marginalia.Glob
import Marginalia.Grammar.Parse

/-!
# Tools of its own

The tools that the program runs with where nothing else is at hand: a parser for the grammar, glob
patterns, a walk through the tree, and headings without any style. They are one choice of many.
-/

namespace Marginalia

/-- The tools that come with the program. -/
def Tools.own : Tools := ⟨Grammar.parse, Glob.patterns, FileTree.walk, id⟩

/-- A heading in bold letters, for a terminal with styles. -/
def boldHeading (t : Text) : Text :=
  "\x1b[1m".toList ++ t ++ "\x1b[0m".toList

end Marginalia
