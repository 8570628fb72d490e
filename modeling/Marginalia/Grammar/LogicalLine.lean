import Marginalia.Grammar.Lexeme

/-!
# Logical lines

The lexemes of a source, gathered into logical lines. A logical line ends at a line break that
stands in no brackets and in no string literal. Lines without lexemes are left out.

Each line knows how far it is indented. Here a tab counts for 8 columns wherever it stands, and
a carriage return or a form feed starts the count again.
-/

namespace Marginalia.Grammar

/-- A logical line: the column where it starts, and its lexemes. -/
structure LogicalLine where
  indent : Nat
  lexemes : List Lexeme
  deriving Repr

/-- Put a lexeme in front of the first line, which starts at column `indent`. -/
def LogicalLine.push (indent : Nat) (x : Lexeme) : List LogicalLine → List LogicalLine
  | [] => [⟨indent, [x]⟩]
  | l :: ls => ⟨indent, x :: l.lexemes⟩ :: ls

/-- Where the division into lines stands in a source. -/
structure LineState where
  /-- What the text in front stands in, the innermost first. -/
  modes : List Mode
  /-- The offset of the text in front. -/
  offset : Nat
  /-- The column where the logical line starts, so far as its white space has been seen. -/
  indent : Nat
  /-- Whether the logical line has begun. -/
  begun : Bool
  deriving Repr

namespace LineState

/-- The column after one more character of white space in front of a line. -/
def indentAfter (indent : Nat) (c : Char) : Nat :=
  if c = ' ' then indent + 1
  else if c = '\t' then indent + 8
  else if c = '\r' ∨ c = '\x0c' then 0
  else indent

/-- The state after white space, a comment or the characters of a literal. -/
def skip (s : LineState) (c : Char) (length : Nat) : LineState :=
  { s with
    offset := s.offset + length + 1
    indent := if s.begun then s.indent else indentAfter s.indent c }

/-- The state after characters of no width. -/
def beginLine (s : LineState) (length : Nat) : LineState :=
  { s with offset := s.offset + length + 1, begun := true }

/-- The state after a lexeme. -/
def enter (s : LineState) (length : Nat) (modes : List Mode) : LineState :=
  { s with modes, offset := s.offset + length + 1, begun := true }

/-- The state after a line break that ends the logical line. -/
def nextLine (s : LineState) : LineState :=
  { s with offset := s.offset + 1, indent := 0, begun := false }

end LineState

/-- The logical lines of the text, the first of which goes on with what stands before it; `none`
when the text has no lexemes, or ends within brackets or a literal. -/
def readLines (s : LineState) : Text → Option (List LogicalLine)
  | [] => if s.modes.isEmpty then some [] else none
  | c :: r =>
    match Front.read s.modes c r with
    | none => none
    | some (.skip n) => readLines (s.skip c n) (r.drop n)
    | some (.content n) => readLines (s.skip c n) (r.drop n)
    | some (.invisible n) => readLines (s.beginLine n) (r.drop n)
    | some .lineBreak =>
      if s.modes.isEmpty then (readLines s.nextLine r).map (⟨0, []⟩ :: ·)
      else readLines (s.skip c 0) r
    | some (.lexeme kind n modes) =>
      (readLines (s.enter n modes) (r.drop n)).map
        (LogicalLine.push s.indent ⟨kind, c :: r.take n, s.offset, s.offset + n + 1⟩)
termination_by t => t.length
decreasing_by
  all_goals
    simp only [List.length_cons, List.length_drop]
    omega

/-- The logical lines of a source that have lexemes. -/
def logicalLines (source : Text) : Option (List LogicalLine) :=
  (readLines ⟨[], 0, 0, false⟩ source).map fun ls => ls.filter (!·.lexemes.isEmpty)

end Marginalia.Grammar
