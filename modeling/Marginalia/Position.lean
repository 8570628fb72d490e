import Marginalia.Text.Basic

/-!
# Positions in a source

Lines are counted from 1 and columns from 0, both in characters. A stretch of source is given
by its extent: the position of its first character and the position just past its last one.
-/

namespace Marginalia

/-- A place in a source: line from 1, column from 0. -/
structure Position where
  line : Nat
  column : Nat
  deriving DecidableEq, Repr

namespace Position

/-- The position after the character `c`, when `c` stands at `p`. -/
def advance (p : Position) (c : Char) : Position :=
  if c = '\n' then ⟨p.line + 1, 0⟩ else ⟨p.line, p.column + 1⟩

/-- The position after the text `t`, when `t` stands at `p`. -/
def advanceBy (p : Position) (t : Text) : Position :=
  t.foldl advance p

@[simp]
theorem advanceBy_nil (p : Position) : p.advanceBy [] = p := rfl

theorem advanceBy_cons (p : Position) (c : Char) (t : Text) :
    p.advanceBy (c :: t) = (p.advance c).advanceBy t := rfl

theorem advanceBy_append (p : Position) (s t : Text) :
    p.advanceBy (s ++ t) = (p.advanceBy s).advanceBy t := by
  simp [advanceBy]

end Position

/-- A stretch of source, from its first character to just past its last one. -/
structure Extent where
  start : Position
  stop : Position
  deriving DecidableEq, Repr

end Marginalia
