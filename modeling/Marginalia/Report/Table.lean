import Marginalia.Report

/-!
# Reports as tables

Reports as text for a terminal. A note takes one row, whatever is in it: `escape` writes the
characters that would break the row as two ordinary ones. How a heading is shown is up to the
terminal, so that is a parameter.
-/

namespace Marginalia

namespace Table

/-- The text on one row: line breaks, tabs and backslashes are written with a backslash. -/
def escape (t : Text) : Text :=
  t.flatMap fun
    | '\\' => ['\\', '\\']
    | '\n' => ['\\', 'n']
    | '\r' => ['\\', 'r']
    | '\t' => ['\\', 't']
    | c => [c]

/-- A line of output. -/
def row (t : Text) : Text := t ++ ['\n']

/-- The line that separates the parts of a table. -/
def rule : Text := row (List.replicate 80 '-')

/-- A percentage to the nearest whole; a half goes to the even neighbour. -/
def wholePercentage (p : Float) : Nat :=
  let n := p.floor.toUInt64.toNat
  let rest := p - p.floor
  if rest > 0.5 ∨ rest == 0.5 ∧ n % 2 = 1 then n + 1 else n

/-- The counts and shares of one kind of thing, with `width` columns for a count. -/
def statisticsRow (capital small : String) (width part whole : Nat) (share : Float) : Text :=
  row ("Comment ".toList ++ small.toList ++ ": ".toList ++
    Text.padRight width (Text.ofNat part) ++ " Total ".toList ++ small.toList ++ ": ".toList ++
    Text.padRight width (Text.ofNat whole) ++ (' ' :: capital.toList) ++ " ratio: ".toList ++
    Text.ofNat (wholePercentage share) ++ ['%'])

/-- The statistics, lines first and then letters. -/
def statistics (s : Statistics) : Text :=
  statisticsRow "Line" "lines" 8 s.commentLines s.totalLines s.lineRatio ++
    statisticsRow "Letter" "letters" 6 s.commentLetters s.totalLetters s.letterRatio

/-- A row of the table of notes. -/
def noteRow (line : Nat) (content : Text) : Text :=
  row (Text.padRight 8 (Text.ofNat line) ++ escape content)

/-- The table of one file, under a name. -/
def file (heading : Text → Text) (r : FileReport) (name : Text) : Text :=
  row (heading name) ++ rule ++
    row (heading (Text.padRight 8 "Line".toList ++ "Content".toList)) ++
    (r.comments.flatMap fun (line, content) => noteRow line content) ++ rule ++
    statistics r.statistics

/-- How a file below `base` is named. -/
def nameBelow (base p : Path) : Text :=
  match base.relativeTo? p with
  | some ⟨[]⟩ | none => p.text
  | some q => q.text

/-- The tables of all files, and their statistics together. -/
def batch (heading : Text → Text) (b : Batch FileReport) (base : Path) : Text :=
  (b.files.flatMap fun r => file heading r (nameBelow base r.path) ++ row []) ++
    row (heading ("Total (".toList ++ Text.ofNat b.files.length ++ " files)".toList)) ++
    rule ++ statistics b.totals

/-- What was removed from one file, under a name. -/
def strip (r : StripReport) (name : Text) : Text :=
  row (name ++ ": removed ".toList ++ Text.ofNat r.removed ++ " of ".toList ++
    Text.ofNat r.total ++ " lines (backup: ".toList ++ r.backup.text ++ [')'])

/-- What was removed from all files. -/
def stripBatch (heading : Text → Text) (b : Batch StripReport) (base : Path) : Text :=
  (b.files.flatMap fun r => strip r (nameBelow base r.path)) ++ rule ++
    row (heading ("Removed ".toList ++ Text.ofNat b.removed ++ " lines in ".toList ++
      Text.ofNat b.files.length ++ " files".toList))

end Table

end Marginalia
