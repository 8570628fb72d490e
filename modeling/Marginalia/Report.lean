import Marginalia.Analysis
import Marginalia.Failure

/-!
# Reports

What is said about files: the commentary found in one, the lines removed from one, and the
reports on many files with the failures apart.
-/

namespace Marginalia

/-- The commentary of a file: its lines with what stands there, the counts, and their shares in
percent, rounded to two decimals. -/
structure FileReport where
  path : Path
  comments : List (Nat × Text)
  commentLines : Nat
  totalLines : Nat
  lineRatio : Float
  commentLetters : Nat
  totalLetters : Nat
  letterRatio : Float
  deriving DecidableEq, Repr

/-- The report on a file with these comments and statistics. -/
def FileReport.ofStatistics (p : Path) (comments : List (Nat × Text)) (s : Statistics) :
    FileReport where
  path := p
  comments
  commentLines := s.commentLines
  totalLines := s.totalLines
  lineRatio := roundedPercentage s.lineRatio
  commentLetters := s.commentLetters
  totalLetters := s.totalLetters
  letterRatio := roundedPercentage s.letterRatio

/-- The statistics that the counts give, not rounded. -/
def FileReport.statistics (r : FileReport) : Statistics :=
  .ofCounts r.commentLines r.totalLines r.commentLetters r.totalLetters

/-- The report on an analysis. -/
def Analysis.report (a : Analysis) (p : Path) : FileReport :=
  .ofStatistics p (a.notes.toList.map fun (line, note) => (line, note.content)) a.statistics

/-- What was removed from a file, and where its old content is kept. -/
structure StripReport where
  path : Path
  /-- The number of lines that changed. -/
  removed : Nat
  /-- The number of lines. -/
  total : Nat
  backup : Path
  deriving DecidableEq, Repr

/-- The reports on several files, in order, and the files that failed, in order. -/
structure Batch (α : Type) where
  files : List α
  failures : List (Path × Failure)

namespace Batch

/-- The batch of no files. -/
def empty {α : Type} : Batch α := ⟨[], []⟩

/-- The batch with the outcome for one more file. -/
def add {α : Type} (b : Batch α) (p : Path) : Except Failure α → Batch α
  | .ok report => { b with files := b.files ++ [report] }
  | .error e => { b with failures := b.failures ++ [(p, e)] }

/-- Whether some file failed. -/
def hasFailures {α : Type} (b : Batch α) : Bool :=
  !b.failures.isEmpty

/-- The statistics of all files together. -/
def totals (b : Batch FileReport) : Statistics :=
  b.files.foldl (fun s r => s + r.statistics) Statistics.zero

/-- The number of lines that changed in all files together. -/
def removed (b : Batch StripReport) : Nat :=
  b.files.foldr (fun r n => r.removed + n) 0

end Batch

end Marginalia
