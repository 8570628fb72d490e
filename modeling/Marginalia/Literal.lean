import Marginalia.Token

/-!
# String literals in a source

A `Literal` is a string literal that stands at a known place: where it starts, where it ends,
and its characters as written. The column where it ends is measured from its text, and so are
the parts of it that stand on each of its lines.
-/

namespace Marginalia

/-- A string literal as it stands in a source. -/
structure Literal where
  start : Position
  stop : Position
  text : Text
  deriving DecidableEq, Repr

namespace Literal

/-- The last physical line of a text. -/
def lastLine (t : Text) : Text :=
  ((Text.splitAt '\n' t).getLast?).getD []

/-- The literal with the characters `text` that starts at `start` and ends on line `stopLine`. -/
def ofText (start : Position) (stopLine : Nat) (text : Text) : Literal :=
  let width := (Text.trimEnd (· == '\r') (lastLine text)).length
  { start
    stop := ⟨max stopLine start.line, if '\n' ∈ text then width else start.column + width⟩
    text }

/-- The literal of a string token. -/
def ofToken (t : Token) : Literal :=
  ofText t.start t.stop.line t.text

/-- The lines that the literal covers. -/
def lines (s : Literal) : List Nat :=
  List.range' s.start.line (s.stop.line + 1 - s.start.line)

/-- Whether the literal covers line `n`. -/
def covers (s : Literal) (n : Nat) : Bool :=
  s.start.line ≤ n && n ≤ s.stop.line

/-- The extent of the literal. -/
def extent (s : Literal) : Extent :=
  ⟨s.start, s.stop⟩

/-- The column at which the literal starts on line `n`: a line after the first belongs to it
from column 0. -/
def columnOn (s : Literal) (n : Nat) : Nat :=
  if n = s.start.line then s.start.column else 0

/-- Every line of the literal with the part of the text on it, without the carriage returns at
its end. A line past the end of the text has none of it. -/
def lineContents (s : Literal) : List (Nat × Text) :=
  let pieces := Text.splitAt '\n' s.text
  s.lines.mapIdx fun i n => (n, Text.trimEnd (· == '\r') (pieces[i]?.getD []))

/-- The literal, `width` columns further to the right if it starts on line 1. -/
def shiftFirstLine (width : Nat) (s : Literal) : Literal :=
  if s.start.line = 1 then
    { s with
      start := ⟨1, s.start.column + width⟩
      stop := if s.stop.line = 1 then ⟨1, s.stop.column + width⟩ else s.stop }
  else s

theorem mem_lines {s : Literal} {n : Nat} : n ∈ s.lines ↔ s.start.line ≤ n ∧ n ≤ s.stop.line := by
  simp only [lines, List.mem_range'_1]
  omega

theorem covers_iff {s : Literal} {n : Nat} : s.covers n ↔ n ∈ s.lines := by
  simp [covers, mem_lines]

end Literal

end Marginalia
