import Marginalia.Text.Basic

/-!
# Physical lines

A text is cut into physical lines after every line feed. Each line remembers how it ended, so
the lines of a text give the text back: `joinLines (splitLines t) = t`.
-/

namespace Marginalia

/-- How a physical line ends. -/
inductive Terminator
  /-- The end of the text, with no line break before it. -/
  | none
  /-- A line feed. -/
  | lf
  /-- A carriage return and a line feed. -/
  | crlf
  deriving DecidableEq, Repr

/-- The characters of a terminator. -/
def Terminator.text : Terminator → Text
  | .none => []
  | .lf => ['\n']
  | .crlf => ['\r', '\n']

/-- A physical line: its characters, and how it ends. -/
structure Line where
  text : Text
  terminator : Terminator
  deriving DecidableEq, Repr

/-- Put a character in front of the first line, or make it a line of its own. -/
def Line.push (c : Char) : List Line → List Line
  | [] => [⟨[c], .none⟩]
  | l :: ls => ⟨c :: l.text, l.terminator⟩ :: ls

/-- The physical lines of a text. A text that ends in a line feed has no empty line after it. -/
def splitLines : Text → List Line
  | [] => []
  | '\n' :: r => ⟨[], .lf⟩ :: splitLines r
  | '\r' :: '\n' :: r => ⟨[], .crlf⟩ :: splitLines r
  | c :: r => Line.push c (splitLines r)

/-- The text that the lines spell. -/
def joinLines (ls : List Line) : Text :=
  ls.flatMap fun l => l.text ++ l.terminator.text

/-- The characters of line `n`, counted from 1; no line is empty text. -/
def lineText (ls : List Line) : Nat → Text
  | 0 => []
  | n + 1 => (ls[n]?).elim [] Line.text

theorem joinLines_push (c : Char) (ls : List Line) :
    joinLines (Line.push c ls) = c :: joinLines ls := by
  cases ls <;> simp [joinLines, Line.push, Terminator.text]

theorem joinLines_splitLines (t : Text) : joinLines (splitLines t) = t := by
  fun_induction splitLines t with
  | case1 => rfl
  | case2 r ih => simpa [joinLines, Terminator.text] using ih
  | case3 r ih => simpa [joinLines, Terminator.text] using ih
  | case4 c r _ _ ih => rw [joinLines_push, ih]

end Marginalia
