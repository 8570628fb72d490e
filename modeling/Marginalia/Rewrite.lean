import Marginalia.Notes.OfLines
import Marginalia.Statistics

/-!
# Removing commentary

`rewrite` takes the notes out of a source and keeps every line in its place.

* A line without a note stays as it is.
* A comment is cut off; a line with nothing else on it becomes empty.
* A string literal goes as a whole or stays as a whole. It goes when nothing stands before it on
  its first line, and nothing but a comment after it on its last.
* Every line keeps its terminator. Only a last line without terminator that becomes empty takes
  over the one of the line before it, for it would vanish otherwise.
* A byte order mark in front of a line that is emptied stays.
-/

namespace Marginalia

/-- Whether a text shows nothing: it has only white space and byte order marks. -/
def isBlank (t : Text) : Bool :=
  t.all isBlankChar

/-- What stays of a line that is emptied. -/
def blanked : Text → Text
  | c :: _ => if c = byteOrderMark then [byteOrderMark] else []
  | [] => []

/-- Whether the literal with this extent can go without taking code with it. -/
def isRemovable (lines : List Line) (e : Extent) : Bool :=
  let tail := Text.trim isSpace ((lineText lines e.stop.line).drop e.stop.column)
  isBlank ((lineText lines e.start.line).take e.start.column) &&
    (tail.isEmpty || tail.head? == some '#')

/-- What stays of the line `line` with this note on it. With `verify`, a comment stays when an
odd number of quotes stands before it. -/
def rewriteLine (lines : List Line) (verify : Bool) (line : Text) (note : Note) : Text :=
  let code := line.take note.column
  if note.kind.isString then
    let removable :=
      match note.extent with
      | some e => isRemovable lines e
      | none => isBlank code
    if removable then blanked line else line
  else if isBlank code then blanked line
  else if verify && !hasEvenQuotes code then line
  else Text.trimEnd isSpace code

/-- What stays of line `n` of the source. -/
def rewrittenText (lines : List Line) (ns : Notes) (verify : Bool) (n : Nat) (line : Text) : Text :=
  match ns.get? n with
  | some note => rewriteLine lines verify line note
  | none => line

/-- How a line ends that has become `text`, when it ended in `own` and the line before it in
`previous`. -/
def keptTerminator (previous own : Terminator) (text : Text) : Terminator :=
  if own = .none ∧ text = [] then previous else own

/-- The lines from line `n` on, rewritten, when the line before them ends in `previous`. -/
def rewriteLines (lines : List Line) (ns : Notes) (verify : Bool) (n : Nat)
    (previous : Terminator) : List Line → List Line
  | [] => []
  | l :: ls =>
    let text := rewrittenText lines ns verify n l.text
    ⟨text, keptTerminator previous l.terminator text⟩ ::
      rewriteLines lines ns verify (n + 1) l.terminator ls

/-- The number of lines that differ in their text from the line they replace. -/
def changedLines (old new : List Line) : Nat :=
  ((old.zip new).filter fun (a, b) => a.text ≠ b.text).length

/-- A source without its commentary. -/
structure Rewrite where
  content : Text
  /-- The number of lines that were emptied or cut. -/
  removed : Nat
  /-- The number of lines of the source, its end counted as one. -/
  total : Nat
  deriving DecidableEq, Repr

/-- The source without the commentary in `ns`. With `verify`, comments after an odd number of
quotes stay. -/
def rewrite (source : Text) (ns : Notes) (verify : Bool) : Rewrite :=
  let lines := splitLines source
  let result := rewriteLines lines ns verify 1 .lf lines
  ⟨joinLines result, changedLines lines result, totalLines source⟩

end Marginalia
